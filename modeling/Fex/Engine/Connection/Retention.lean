import Fex.Engine.Connection.Delivery

/-!
# Chunks are kept until they arrived

A chunk for which `QueueChunk` returned 0 is either handed out by the peer or
still found by walking over the resend buffer.
-/

namespace Fex.Engine.Connection

open Fex.Lib Fex.Engine.Network Fex.Engine.RingBuffer

/-- The objects found by `First` and `Next`. -/
inductive InBuffer (b : ResendBuffer) : Nat → Prop
  | first {p : Nat} : b.First = some p → InBuffer b p
  | next {p q : Nat} : InBuffer b p → b.Next p = .ok (some q) → InBuffer b q

theorem inBuffer_of_linked {b : ResendBuffer} {live : List Nat}
    (hhead : ∀ q, live.head? = some q → InBuffer b q) (hlinked : Linked b.Next live none) :
    ∀ p ∈ live, InBuffer b p := by
  induction live with
  | nil => simp
  | cons q live ih =>
      have hq : InBuffer b q := hhead q rfl
      intro p hp
      rcases List.mem_cons.mp hp with rfl | hp
      · exact hq
      · apply ih _ hlinked.2 p hp
        intro r hr
        apply hq.next
        rw [hlinked.1, hr]
        rfl

theorem Buffered.inBuffer {b : ResendBuffer} {live : List Nat} (h : Buffered b live) :
    ∀ p ∈ live, InBuffer b p := by
  apply inBuffer_of_linked _ h.linked
  intro q hq
  exact .first (h.first.trans hq)

namespace Link

/-- Chunk `i` is in the resend buffer of the sender, with its payload and its number. -/
def Kept (start : Nat) (s : Link) (i : Nat) : Prop :=
  ∃ p, InBuffer s.a.conn.m_Buffer p ∧
    s.queued[i]? = some (s.a.conn.m_Buffer.chunks p).m_pData ∧
    (s.a.conn.m_Buffer.chunks p).m_Sequence = seqOf start (i + 1) ∧
    (s.a.conn.m_Buffer.chunks p).m_Flags &&& NET_CHUNKFLAG_VITAL ≠ 0

end Link

/-- The numbers the sender holds are numbers of chunks in its buffer. -/
theorem SenderTracks.kept {start : Nat} {s : Link} {P : Nat} {chs items : List Chunk}
    {live ns : List Nat} (h : SenderTracks start s P chs live items ns) {i : Nat}
    (hi : i + 1 ∈ ns) : s.Kept start i := by
  obtain ⟨ch, hch, hcopy⟩ := forall₂_right h.numbers hi
  rw [← h.outbox.stored] at hch
  obtain ⟨p, hp, rfl⟩ := List.mem_map.mp hch
  exact ⟨p, h.outbox.buffer.inBuffer p hp, hcopy.data, hcopy.seq, hcopy.vital⟩

end Fex.Engine.Connection
