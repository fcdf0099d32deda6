import Fex.Engine.Demo
import Fex.Lib.Cuts

/-!
# The key frame that is sought

The first loop of `SetPos` goes up to a key frame that is not in front of the wanted tick, the
second one down to one that is not behind it.  From whichever key frame they start, they end in
front of the cut between the two kinds.
-/

namespace Fex.Engine.Demo

open Fex.Lib

deriving instance DecidableEq for CKeyFrame

/-- The two loops of `SetPos`. -/
def findKeyFrame (m_vKeyFrames : List CKeyFrame) (KeyFrameWantedTick : Int) (KeyFrame : Nat) : Nat :=
  seekBackward m_vKeyFrames KeyFrameWantedTick
    (seekForward m_vKeyFrames KeyFrameWantedTick m_vKeyFrames.length KeyFrame)

def Sorted (m_vKeyFrames : List CKeyFrame) : Prop :=
  m_vKeyFrames.Pairwise fun a b => a.m_Tick ≤ b.m_Tick

/-- The last key frame whose tick is at most the wanted one, or the first one where there is
none. -/
def IsLastUpTo (m_vKeyFrames : List CKeyFrame) (KeyFrameWantedTick : Int) (KeyFrame : Nat) : Prop :=
  IsGreatest {i | ∃ k, m_vKeyFrames[i]? = some k ∧ k.m_Tick ≤ KeyFrameWantedTick} KeyFrame ∨
    (∀ k ∈ m_vKeyFrames, KeyFrameWantedTick < k.m_Tick) ∧ KeyFrame = 0

/-- The key frames with the wanted tick. -/
def withTick (m_vKeyFrames : List CKeyFrame) (KeyFrameWantedTick : Int) : Set Nat :=
  {i | ∃ k, m_vKeyFrames[i]? = some k ∧ k.m_Tick = KeyFrameWantedTick}

/-- The number of key frames in front of a tick. -/
def below (m_vKeyFrames : List CKeyFrame) (KeyFrameWantedTick : Int) : Nat :=
  m_vKeyFrames.countP (·.m_Tick < KeyFrameWantedTick)

/-- The number of key frames up to a tick. -/
def upTo (m_vKeyFrames : List CKeyFrame) (KeyFrameWantedTick : Int) : Nat :=
  m_vKeyFrames.countP (·.m_Tick ≤ KeyFrameWantedTick)

variable {m_vKeyFrames : List CKeyFrame} {KeyFrameWantedTick : Int} {KeyFrame : Nat}

/-! ## The cuts -/

theorem below_le_upTo (m_vKeyFrames : List CKeyFrame) (KeyFrameWantedTick : Int) :
    below m_vKeyFrames KeyFrameWantedTick ≤ upTo m_vKeyFrames KeyFrameWantedTick := by
  apply List.countP_mono_left
  intro k _ hlt
  exact decide_eq_true (Int.le_of_lt (of_decide_eq_true hlt))

namespace Sorted

theorem lt_below (h : Sorted m_vKeyFrames) {k : CKeyFrame} (hk : m_vKeyFrames[KeyFrame]? = some k) :
    KeyFrame < below m_vKeyFrames KeyFrameWantedTick ↔ k.m_Tick < KeyFrameWantedTick := by
  have hcut : Cut (fun k : CKeyFrame => decide (k.m_Tick < KeyFrameWantedTick)) m_vKeyFrames := by
    apply cut_of_sorted h
    intro a b hle hb
    exact decide_eq_true (Int.lt_of_le_of_lt hle (of_decide_eq_true hb))
  exact (hcut.lt_iff hk).trans decide_eq_true_iff

theorem cut_upTo (h : Sorted m_vKeyFrames) (KeyFrameWantedTick : Int) :
    Cut (fun k : CKeyFrame => decide (k.m_Tick ≤ KeyFrameWantedTick)) m_vKeyFrames := by
  apply cut_of_sorted h
  intro a b hle hb
  exact decide_eq_true (Int.le_trans hle (of_decide_eq_true hb))

theorem lt_upTo (h : Sorted m_vKeyFrames) {k : CKeyFrame} (hk : m_vKeyFrames[KeyFrame]? = some k) :
    KeyFrame < upTo m_vKeyFrames KeyFrameWantedTick ↔ k.m_Tick ≤ KeyFrameWantedTick :=
  ((h.cut_upTo KeyFrameWantedTick).lt_iff hk).trans decide_eq_true_iff

theorem isLastUpTo (h : Sorted m_vKeyFrames) (KeyFrameWantedTick : Int) :
    IsLastUpTo m_vKeyFrames KeyFrameWantedTick (upTo m_vKeyFrames KeyFrameWantedTick - 1) := by
  rcases Nat.eq_zero_or_pos (upTo m_vKeyFrames KeyFrameWantedTick) with hnone | hpos
  · right
    refine ⟨fun k hk => ?_, by rw [hnone]⟩
    have hnot := List.countP_eq_zero.mp hnone k hk
    rw [decide_eq_true_iff] at hnot
    exact Int.not_le.mp hnot
  · left
    have hlast := (h.cut_upTo KeyFrameWantedTick).isGreatest hpos
    simp only [decide_eq_true_eq] at hlast
    exact hlast

/-- The key frames with the wanted tick lie between the cuts. -/
theorem mem_withTick (h : Sorted m_vKeyFrames) :
    KeyFrame ∈ withTick m_vKeyFrames KeyFrameWantedTick ↔
      below m_vKeyFrames KeyFrameWantedTick ≤ KeyFrame ∧
        KeyFrame < upTo m_vKeyFrames KeyFrameWantedTick := by
  constructor
  · rintro ⟨k, hk, heq⟩
    rw [h.lt_upTo hk, ← Nat.not_lt, h.lt_below hk]
    omega
  · rintro ⟨hle, hlt⟩
    obtain ⟨k, hk, -⟩ := (h.cut_upTo KeyFrameWantedTick).mem_iff.mpr hlt
    refine ⟨k, hk, ?_⟩
    rw [← Nat.not_lt, h.lt_below hk] at hle
    rw [h.lt_upTo hk] at hlt
    omega

end Sorted

/-! ## The loops -/

/-- The first loop goes up to the cut, or to the last key frame in front of it. -/
theorem seekForward_eq (h : Sorted m_vKeyFrames) {n : Nat} (hlt : KeyFrame < m_vKeyFrames.length)
    (hn : m_vKeyFrames.length ≤ KeyFrame + n) :
    seekForward m_vKeyFrames KeyFrameWantedTick n KeyFrame =
      max KeyFrame (min (below m_vKeyFrames KeyFrameWantedTick) (m_vKeyFrames.length - 1)) := by
  induction n generalizing KeyFrame with
  | zero => omega
  | succ n ih =>
      have hk := List.getElem?_eq_getElem hlt
      have hbelow : KeyFrame < below m_vKeyFrames KeyFrameWantedTick ↔
          m_vKeyFrames[KeyFrame].m_Tick < KeyFrameWantedTick := h.lt_below hk
      rw [seekForward, hk]
      simp only
      by_cases hnext : KeyFrame + 1 < m_vKeyFrames.length ∧
          m_vKeyFrames[KeyFrame].m_Tick < KeyFrameWantedTick
      · have hcut := hbelow.mpr hnext.2
        rw [if_pos hnext, ih hnext.1 (by omega)]
        omega
      · rw [if_neg hnext]
        rw [← hbelow] at hnext
        omega

/-- The second loop goes down in front of the cut, or to the first key frame. -/
theorem seekBackward_eq (h : Sorted m_vKeyFrames) (hlt : KeyFrame < m_vKeyFrames.length) :
    seekBackward m_vKeyFrames KeyFrameWantedTick KeyFrame =
      min KeyFrame (upTo m_vKeyFrames KeyFrameWantedTick - 1) := by
  induction KeyFrame with
  | zero => exact (Nat.zero_min _).symm
  | succ KeyFrame ih =>
      have hk := List.getElem?_eq_getElem hlt
      have hupTo : KeyFrame + 1 < upTo m_vKeyFrames KeyFrameWantedTick ↔
          m_vKeyFrames[KeyFrame + 1].m_Tick ≤ KeyFrameWantedTick := h.lt_upTo hk
      rw [seekBackward, hk]
      simp only
      by_cases hbehind : m_vKeyFrames[KeyFrame + 1].m_Tick > KeyFrameWantedTick
      · have hcut : ¬ KeyFrame + 1 < upTo m_vKeyFrames KeyFrameWantedTick :=
          fun hin => Int.not_le.mpr hbehind (hupTo.mp hin)
        rw [if_pos hbehind, ih (by omega)]
        omega
      · have hcut := hupTo.mpr (Int.not_lt.mp hbehind)
        rw [if_neg hbehind]
        omega

/-- Both loops together, from any key frame on. -/
theorem findKeyFrame_eq (h : Sorted m_vKeyFrames) (hlt : KeyFrame < m_vKeyFrames.length) :
    findKeyFrame m_vKeyFrames KeyFrameWantedTick KeyFrame =
      min (max KeyFrame (below m_vKeyFrames KeyFrameWantedTick))
        (upTo m_vKeyFrames KeyFrameWantedTick - 1) := by
  have hle := below_le_upTo m_vKeyFrames KeyFrameWantedTick
  have hlength : upTo m_vKeyFrames KeyFrameWantedTick ≤ m_vKeyFrames.length :=
    List.countP_le_length
  rw [findKeyFrame, seekForward_eq h hlt (Nat.le_add_left ..), seekBackward_eq h (by omega)]
  omega

/-- The loops end at the last key frame up to the wanted tick, except where several key frames have
the wanted tick: there they end at the one of them that is next to where they started. -/
theorem findKeyFrame_last (h : Sorted m_vKeyFrames) (KeyFrameWantedTick : Int) :
    ∃ last, IsLastUpTo m_vKeyFrames KeyFrameWantedTick last ∧
      ∀ KeyFrame < m_vKeyFrames.length,
        ((withTick m_vKeyFrames KeyFrameWantedTick).Subsingleton →
          findKeyFrame m_vKeyFrames KeyFrameWantedTick KeyFrame = last) ∧
        ∀ first, IsLeast (withTick m_vKeyFrames KeyFrameWantedTick) first →
          findKeyFrame m_vKeyFrames KeyFrameWantedTick KeyFrame = max first (min KeyFrame last) := by
  refine ⟨_, h.isLastUpTo KeyFrameWantedTick, fun KeyFrame hlt => ?_⟩
  rw [findKeyFrame_eq h hlt]
  constructor
  · intro hone
    have hcuts : upTo m_vKeyFrames KeyFrameWantedTick ≤
        below m_vKeyFrames KeyFrameWantedTick + 1 := by
      apply Nat.le_of_not_lt
      intro htwo
      have heq := hone (h.mem_withTick.mpr ⟨Nat.le_refl _, by omega⟩)
        (h.mem_withTick.mpr ⟨Nat.le_succ _, htwo⟩)
      omega
    omega
  · intro first hfirst
    have hmem := h.mem_withTick.mp hfirst.1
    have hle := hfirst.2 (h.mem_withTick.mpr ⟨Nat.le_refl _, by omega⟩)
    omega

/-- Two key frames with tick 10, and tick 15 at the end. -/
def doubledDemo : DemoFile where
  bytes := [0xc0, 0, 0, 0, 10, 0xc0, 0, 0, 0, 10, 0x80, 0, 0, 0, 15]
  m_Version := 6
  m_Sixup := false
  StartPos := 0

def doubled : List CKeyFrame := [⟨0, 10⟩, ⟨5, 10⟩]

theorem sorted_doubled : Sorted doubled := by
  simp [Sorted, doubled]

theorem findKeyFrame_last_doubled :
    ∃ last, IsLastUpTo doubled 10 last ∧
      ∀ KeyFrame < doubled.length,
        ((withTick doubled 10).Subsingleton → findKeyFrame doubled 10 KeyFrame = last) ∧
        ∀ first, IsLeast (withTick doubled 10) first →
          findKeyFrame doubled 10 KeyFrame = max first (min KeyFrame last) :=
  findKeyFrame_last sorted_doubled 10

/-- `SetPos` to the end starts at the first of the two key frames if the guess is 0. -/
theorem findKeyFrame_not_last :
    ∃ m_vKeyFrames m_FirstTick m_LastTick,
      ScanFile doubledDemo = some (m_vKeyFrames, m_FirstTick, m_LastTick) ∧ Sorted m_vKeyFrames ∧
      ¬ ∀ KeyFrame < m_vKeyFrames.length,
        IsLastUpTo m_vKeyFrames (clamp 15 m_FirstTick m_LastTick - 5)
          (findKeyFrame m_vKeyFrames (clamp 15 m_FirstTick m_LastTick - 5) KeyFrame) := by
  refine ⟨doubled, 10, 15, by decide +kernel, sorted_doubled, ?_⟩
  intro hall
  have hfirst : IsLastUpTo doubled 10 0 := hall 0 (by decide)
  rcases hfirst with hgreatest | ⟨hnone, -⟩
  · have hle : 1 ≤ 0 := hgreatest.2 ⟨⟨5, 10⟩, rfl, Int.le_refl 10⟩
    omega
  · exact absurd (hnone ⟨0, 10⟩ List.mem_cons_self) (Int.lt_irrefl 10)

/-! ## Key frames with different ticks

The recorder writes key frames with increasing ticks.  The guess is then of no account, in one call
and in a whole run.
-/

def StrictlySorted (m_vKeyFrames : List CKeyFrame) : Prop :=
  m_vKeyFrames.Pairwise fun a b => a.m_Tick < b.m_Tick

theorem StrictlySorted.sorted (h : StrictlySorted m_vKeyFrames) : Sorted m_vKeyFrames :=
  h.imp Int.le_of_lt

/-- A player that still plays has the key frames of its file. -/
def Keeps (m_vKeyFrames : List CKeyFrame) (p : CDemoPlayer) : Prop :=
  p.IsPlaying → p.m_vKeyFrames = m_vKeyFrames

section

variable {UnpackDelta : List UInt8 → List Int → Int → Bool → Option (List UInt8)}
variable {video : Bool} {d : DemoFile} {p : CDemoPlayer}

/-! ## The call -/

theorem processDelta_m_vKeyFrames (DataSize : Int) :
    (processDelta UnpackDelta d p DataSize).1.m_vKeyFrames = p.m_vKeyFrames := by
  unfold processDelta
  split
  · rfl
  · split <;> rfl

theorem processSnapshot_m_vKeyFrames (DataSize : Int) :
    (processSnapshot p DataSize).1.m_vKeyFrames = p.m_vKeyFrames := by
  unfold processSnapshot
  simp only
  split <;> rfl

theorem replayLast_m_vKeyFrames (GotSnapshot : Bool) :
    (replayLast p GotSnapshot).1.m_vKeyFrames = p.m_vKeyFrames := by
  unfold replayLast
  split <;> rfl

theorem keeps_stop : Keeps m_vKeyFrames p.Stop := nofun

theorem keeps_tickLoop {pos : Nat} {ChunkTick : Int} {GotSnapshot : Bool}
    (h : p.m_vKeyFrames = m_vKeyFrames) :
    Keeps m_vKeyFrames (tickLoop UnpackDelta video d p pos ChunkTick GotSnapshot) := by
  fun_induction tickLoop UnpackDelta video d p pos ChunkTick GotSnapshot with
  | case1 => exact keeps_stop
  | case2 => exact keeps_stop
  | case3 => exact fun _ => h
  | case4 => exact keeps_stop
  | case5 => exact fun _ => h
  | case6 => exact keeps_stop
  | case7 =>
      next ih =>
      exact ih ((processDelta_m_vKeyFrames _).trans h)
  | case8 =>
      next ih =>
      exact ih ((processSnapshot_m_vKeyFrames _).trans h)
  | case9 => exact fun _ => (replayLast_m_vKeyFrames _).trans h
  | case10 =>
      next ih =>
      exact ih ((replayLast_m_vKeyFrames _).trans h)
  | case11 =>
      next ih =>
      exact ih ((replayLast_m_vKeyFrames _).trans h)

namespace Keeps

theorem ite {c : Prop} [Decidable c] {p' : CDemoPlayer} (h : Keeps m_vKeyFrames p)
    (h' : Keeps m_vKeyFrames p') : Keeps m_vKeyFrames (if c then p' else p) := by
  split
  · exact h'
  · exact h

theorem DoTick (h : Keeps m_vKeyFrames p) :
    Keeps m_vKeyFrames (Demo.DoTick UnpackDelta video d p) := by
  unfold Demo.DoTick
  split
  · exact h
  next hfile => exact keeps_tickLoop (h (by rw [CDemoPlayer.IsPlaying, hfile]; rfl))

theorem ticksWhile (cond : CDemoPlayer → Bool) (n : Nat) (h : Keeps m_vKeyFrames p) :
    Keeps m_vKeyFrames (Demo.ticksWhile UnpackDelta video d cond n p) := by
  induction n generalizing p with
  | zero => exact h
  | succ n ih =>
      unfold Demo.ticksWhile
      split
      · exact ih h.DoTick
      · exact h

theorem Play (n : Nat) (h : Keeps m_vKeyFrames p) :
    Keeps m_vKeyFrames (Demo.Play UnpackDelta video d n p) := by
  unfold Demo.Play
  split
  · exact h
  · have hticks : Keeps m_vKeyFrames (Demo.ticksWhile UnpackDelta video d
        (fun p => p.m_PreviousTick = -1 ∧ p.IsPlaying) n (Demo.DoTick UnpackDelta video d p)) :=
      h.DoTick.ticksWhile _ n
    simp only
    split
    · exact hticks
    · exact hticks

theorem SetPos (guess n : Nat) (WantedTick : Int) (h : Keeps m_vKeyFrames p) :
    Keeps m_vKeyFrames (Demo.SetPos UnpackDelta video d guess n WantedTick p) := by
  unfold Demo.SetPos
  split
  · exact h
  next hplaying =>
    have hframes := h (not_not.mp hplaying)
    simp only
    split
    · exact fun _ => hframes
    next k _ =>
      have hsought : Keeps m_vKeyFrames
          { p with
            m_File := some k.m_Filepos, m_NextTick := -1, m_CurrentTick := -1
            m_PreviousTick := -1 } :=
        fun _ => hframes
      split
      · exact (hsought.ticksWhile _ n).Play n
      · exact hsought.ticksWhile _ n

theorem Update (RealTime : Bool) (CurrentTime : Int) (n : Nat) (h : Keeps m_vKeyFrames p) :
    Keeps m_vKeyFrames (Demo.Update UnpackDelta video d RealTime CurrentTime n p) := by
  unfold Demo.Update
  split
  · exact h
  · exact ticksWhile _ n h

theorem step (h : Keeps m_vKeyFrames p) (c : Call) :
    Keeps m_vKeyFrames (Demo.step UnpackDelta video d p c) := by
  cases c with
  | DoTick => exact h.ite h.DoTick
  | SetPos WantedTick guess n => exact h.ite (h.SetPos guess n WantedTick)
  | Update RealTime CurrentTime n => exact h.ite (h.Update RealTime CurrentTime n)

theorem load {m_aChunkData : List Int} {m_aLastSnapshotData : List UInt8} {m_FirstTick m_LastTick : Int}
    (hscan : ScanFile d = some (m_vKeyFrames, m_FirstTick, m_LastTick))
    (h : Load d m_aChunkData m_aLastSnapshotData = some p) : Keeps m_vKeyFrames p := by
  unfold Load at h
  rw [hscan] at h
  rw [← Option.some.inj h]
  exact fun _ => rfl

end Keeps

end

end Fex.Engine.Demo
