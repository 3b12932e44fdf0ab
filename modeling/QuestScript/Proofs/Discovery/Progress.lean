import Mathlib
import QuestScript.Proofs.Discovery.Visit

/-! Discoveries get on: whatever is decoded is known better than before, and there is an end to that. -/

namespace QuestScript

/-- How much is known of a range that was taken for a kind, and may have been given up as a text. -/
def SegmentKind.rank (kind : SegmentKind) (givenUp : Bool) : Nat :=
  match kind with
  | data => if givenUp then 2 else 1
  | text => 2
  | code => 3

namespace Discovery

/-- How much is known of the range at an offset. -/
def rank (state : Discovery) (offset : Nat) : Nat :=
  match state.segments.find? offset with
  | none => 0
  | some segment => segment.kind.rank (state.invalidTexts.contains offset)

/-- How much is known of all places together. -/
def level (source : Source) (state : Discovery) : Nat :=
  (source.index.places.map fun place => state.rank place.offset).sum

variable {source : Source} {state middle after : Discovery} {label : Label} {kind : SegmentKind}

/-- There is no more to know of a range than that it is code. -/
theorem rank_le (state : Discovery) (offset : Nat) : state.rank offset ≤ 3 := by
  -- Code is known best.
  unfold rank
  split
  · omega
  · rename_i segment found
    unfold SegmentKind.rank
    split
    · split <;> omega
    · omega
    · omega

/-- There is no more to know of the places than that all are code. -/
theorem level_le (source : Source) (state : Discovery) :
    state.level source ≤ 3 * source.index.places.length := by
  -- Each place adds no more than the rank of code.
  have bound := List.sum_le_card_nsmul (source.index.places.map fun place => state.rank place.offset)
    3 (by
      intro rank listed
      obtain ⟨place, -, rfl⟩ := List.mem_map.mp listed
      exact state.rank_le place.offset)
  simpa [level, Nat.mul_comm] using bound

/-- Where no range is known less, the places are not. -/
theorem level_mono (ranks : ∀ offset, state.rank offset ≤ after.rank offset) :
    state.level source ≤ after.level source :=
  List.sum_le_sum fun place _ => ranks place.offset

/-- Where no range is known less, and one that a label points at is known better, the places are. -/
theorem level_lt (ranks : ∀ offset, state.rank offset ≤ after.rank offset) {offset : Nat}
    (placed : source.index.offset? label = some offset)
    (rises : state.rank offset < after.rank offset) : state.level source < after.level source := by
  obtain ⟨place, listed, rfl⟩ := LabelIndex.exists_mem_of_offset? placed
  -- The place of the label is one of those that are summed up.
  exact List.sum_lt_sum _ _ (fun other _ => ranks other.offset) ⟨place, listed, rises⟩

/-- The level is that of the segments and of the texts that were given up. -/
theorem level_congr (segments : after.segments = state.segments)
    (invalidTexts : after.invalidTexts = state.invalidTexts) :
    after.level source = state.level source := by
  simp only [level, rank, segments, invalidTexts]

/-- Where contents are the same, and no other texts are given up, as much is known. -/
theorem rank_congr {offset : Nat} (invalidTexts : after.invalidTexts = state.invalidTexts)
    (contents : (after.segments.find? offset).map (·.content) =
      (state.segments.find? offset).map (·.content)) : after.rank offset = state.rank offset := by
  -- A rank does not depend on labels.
  unfold rank
  rw [invalidTexts]
  cases here : state.segments.find? offset with
  | none =>
    rw [here, Option.map_none, Option.map_eq_none_iff] at contents
    rw [contents]
  | some segment =>
    rw [here, Option.map_some, Option.map_eq_some_iff] at contents
    obtain ⟨later, found, same⟩ := contents
    rw [found]
    simp only [Segment.kind, same]

/-- A discovery that another has become: whatever was decoded on the way is counted, and is known
better than before. No code is taken for resolved. -/
structure Advances (source : Source) (state after : Discovery) : Prop where
  segments : state.segments.length ≤ after.segments.length
  redecoded : state.redecoded ≤ after.redecoded
  analyzed : after.analyzed = state.analyzed
  level : state.level source ≤ after.level source
  still : after.segments.length = state.segments.length → after.redecoded = state.redecoded →
    ∀ offset, (after.segments.find? offset).map (·.content) =
      (state.segments.find? offset).map (·.content)
  rises : state.segments.length < after.segments.length ∨ state.redecoded < after.redecoded →
    state.level source < after.level source

namespace Advances

/-- Where nothing is decoded nothing has to be counted. -/
theorem of_still (segments : after.segments.length = state.segments.length)
    (redecoded : after.redecoded = state.redecoded) (analyzed : after.analyzed = state.analyzed)
    (invalidTexts : after.invalidTexts = state.invalidTexts)
    (contents : ∀ offset, (after.segments.find? offset).map (·.content) =
      (state.segments.find? offset).map (·.content)) : state.Advances source after where
  segments := Nat.le_of_eq segments.symm
  redecoded := Nat.le_of_eq redecoded.symm
  analyzed := analyzed
  -- Every range is known as well as before.
  level := level_mono fun offset => Nat.le_of_eq (rank_congr invalidTexts (contents offset)).symm
  still := fun _ _ => contents
  rises := by
    intro more
    omega

/-- Where something is counted, and known better, all is well. -/
theorem of_rises (segments : state.segments.length ≤ after.segments.length)
    (redecoded : state.redecoded ≤ after.redecoded) (analyzed : after.analyzed = state.analyzed)
    (counted : state.segments.length < after.segments.length ∨ state.redecoded < after.redecoded)
    (rises : state.level source < after.level source) : state.Advances source after where
  segments := segments
  redecoded := redecoded
  analyzed := analyzed
  -- The level has risen, so that there is nothing to say about a state that stays still.
  level := Nat.le_of_lt rises
  still := by
    intro segments redecoded
    omega
  rises := fun _ => rises

/-- Nothing is decoded where nothing happens. -/
theorem refl (state : Discovery) : state.Advances source state :=
  of_still rfl rfl rfl rfl fun _ => rfl

/-- What is decoded after something else is counted with it. -/
theorem trans (first : state.Advances source middle) (second : middle.Advances source after) :
    state.Advances source after where
  segments := Nat.le_trans first.segments second.segments
  redecoded := Nat.le_trans first.redecoded second.redecoded
  analyzed := second.analyzed.trans first.analyzed
  level := Nat.le_trans first.level second.level
  still := by
    intro segments redecoded offset
    -- Nothing was counted on either part of the way.
    have front := first.segments
    have back := second.segments
    have frontAgain := first.redecoded
    have backAgain := second.redecoded
    rw [second.still (by omega) (by omega), first.still (by omega) (by omega)]
  rises := by
    intro counted
    -- What is counted on the whole way is counted on one part of it.
    have front := first.level
    have back := second.level
    by_cases early : state.segments.length < middle.segments.length ∨
        state.redecoded < middle.redecoded
    · have more := first.rises early
      omega
    · have more := second.rises (by omega)
      omega

end Advances

section Decoded

variable {offset other redecoded : Nat} {segment : Segment} {spoiled : Bool} {journal : Journal}

/-- Other ranges are known as before when one is decoded. -/
theorem rank_decoded_of_ne (apart : other ≠ offset) :
    (state.decoded offset segment spoiled redecoded journal).rank other = state.rank other := by
  -- The insertion touches only its own offset.
  have same : (state.segments.insert offset segment).find? other = state.segments.find? other := by
    rw [SegmentMap.find?_insert, if_neg apart]
  cases spoiled with
  | true => simp [rank, decoded, same, apart]
  | false => simp [rank, decoded, same]

/-- A range that is decoded is known as what it has become. -/
theorem rank_decoded_self :
    (state.decoded offset segment spoiled redecoded journal).rank offset =
      segment.kind.rank (spoiled || state.invalidTexts.contains offset) := by
  -- The text is given up by this change, or it was before.
  cases spoiled with
  | true => simp [rank, decoded]
  | false => simp [rank, decoded]

/-- A range that is decoded as more than it was known to be raises the level. -/
theorem level_lt_decoded (placed : source.index.offset? label = some offset)
    (rises : state.rank offset <
      segment.kind.rank (spoiled || state.invalidTexts.contains offset)) :
    state.level source <
      (state.decoded offset segment spoiled redecoded journal).level source := by
  refine level_lt ?_ placed (by rwa [rank_decoded_self])
  -- Elsewhere nothing changes.
  intro other
  by_cases same : other = offset
  · subst same
    rw [rank_decoded_self]
    exact Nat.le_of_lt rises
  · exact Nat.le_of_eq (rank_decoded_of_ne same).symm

end Decoded

end Discovery

/-- Something is known of a range that was taken for any kind. -/
theorem SegmentKind.rank_pos (kind : SegmentKind) (givenUp : Bool) : 0 < kind.rank givenUp := by
  cases kind <;> cases givenUp <;> decide

/-- A range that is decoded again, for a higher priority, is known better than before. -/
theorem Source.Becomes.rank_lt {source : Source} {offset : Nat} {existing kind : SegmentKind}
    {content : Content} {next : Option Label} {spoiled givenUp : Bool}
    (becomes : source.Becomes offset kind content next spoiled)
    (lower : existing.priority < kind.priority) (untried : kind = .text → givenUp = false) :
    existing.rank givenUp < content.kind.rank (spoiled || givenUp) := by
  -- A text that cannot be read stays data, but it is known then that it is no text.
  cases becomes with
  | data => exact absurd lower (Nat.not_lt_zero _)
  | text read =>
    -- Below text there is only data, which has not been tried as a text.
    rw [untried rfl]
    cases existing with
    | data => exact (by decide : SegmentKind.data.rank false < SegmentKind.text.rank false)
    | text => exact absurd lower (by decide)
    | code => exact absurd lower (by decide)
  | noText unreadable =>
    rw [untried rfl]
    cases existing with
    | data => exact (by decide : SegmentKind.data.rank false < SegmentKind.data.rank true)
    | text => exact absurd lower (by decide)
    | code => exact absurd lower (by decide)
  | code read =>
    -- Nothing that is not code is known as well as code.
    have below : existing.rank givenUp < 3 := by
      cases existing with
      | data => cases givenUp <;> decide
      | text => exact (by decide : SegmentKind.text.rank false < 3)
      | code => exact absurd lower (by decide)
    exact below

namespace Discovery

/-- A visit decodes nothing, or is counted for it. -/
theorem Visits.advances {source : Source} {state after : Discovery} {label : Label}
    {kind : SegmentKind} {drop : Option Label} (ordered : state.segments.Ascends)
    (visits : state.Visits source label kind drop after) : state.Advances source after := by
  -- Whatever is decoded is a segment more, or one of those that are decoded again.
  cases visits with
  | nowhere outside segments invalidTexts analyzed redecoded =>
    refine .of_still (by rw [segments]) redecoded analyzed invalidTexts ?_
    intro offset
    rw [segments]
  | @kept offset existing placed here enough =>
    have count : (state.segments.insert offset (existing.addLabel label)).length =
        state.segments.length := by
      rw [ordered.length_insert, here]
      rfl
    refine .of_still count rfl rfl rfl ?_
    -- Another label changes no content.
    intro other
    change ((state.segments.insert offset (existing.addLabel label)).find? other).map _ = _
    rw [SegmentMap.find?_insert]
    split
    · rename_i same
      rw [same, here]
      rfl
    · rfl
  | @fresh offset content drop spoiled journal placed absent becomes =>
    have count : (state.segments.insert offset ⟨[label], content⟩).length =
        state.segments.length + 1 := by
      rw [ordered.length_insert, absent]
      rfl
    have more : state.segments.length < (state.segments.insert offset ⟨[label], content⟩).length := by
      omega
    refine .of_rises (Nat.le_of_lt more) (Nat.le_refl _) rfl (.inl more)
      (level_lt_decoded placed ?_)
    -- Nothing was known of the range before.
    have unknown : state.rank offset = 0 := by rw [rank, absent]
    rw [unknown]
    exact SegmentKind.rank_pos _ _
  | @again offset existing content drop spoiled journal placed here lower untried becomes =>
    have count : (state.segments.insert offset
        ⟨(existing.addLabel label).labels, content⟩).length = state.segments.length := by
      rw [ordered.length_insert, here]
      rfl
    refine .of_rises (Nat.le_of_eq count.symm) (Nat.le_succ _) rfl (.inr (Nat.lt_succ_self _))
      (level_lt_decoded placed ?_)
    have known : state.rank offset = existing.kind.rank (state.invalidTexts.contains offset) := by
      rw [rank, here]
    rw [known]
    refine becomes.rank_lt lower fun text => ?_
    simpa using untried text

end Discovery

/-- A computation that is counted for all that it decodes, if it succeeds. -/
def Progresses (source : Source) {α : Type} (run : Discovering α) : Prop :=
  ∀ state value after, state.segments.Ascends → run state = .ok value after →
    state.Advances source after

namespace Progresses

variable {source : Source} {α β : Type}

/-- A result alone decodes nothing. -/
theorem pure (value : α) : Progresses source (Pure.pure value) := by
  -- The state is the one that there was.
  intro state result after ordered run
  obtain ⟨-, rfl⟩ := pure_eq_ok run
  exact .refl state

/-- Two computations are counted for what each of them decodes. -/
theorem bind {first : Discovering α} {second : α → Discovering β} (walks : Walks source first)
    (front : Progresses source first) (back : ∀ value, Progresses source (second value)) :
    Progresses source (first >>= second) := by
  intro state result after ordered run
  obtain ⟨value, middle, begun, ended⟩ := bind_eq_ok run
  -- What comes second begins with segments in order, too.
  have still := Discovery.ascends_of_reaches ordered (walks.reaches begun)
  exact (front state value middle ordered begun).trans (back value middle result after still ended)

end Progresses

/-- The discovery of one label is counted. -/
theorem progresses_discoverOne (source : Source) (label : Label) (kind : SegmentKind) :
    Progresses source (discoverOne source label kind) :=
  fun _ _ _ ordered run => (visits_of_discoverOne run).advances ordered

/-- The discovery of the code that control drops into is counted. -/
theorem progresses_discoverChain (source : Source) (steps : Nat) (label : Label)
    (kind : SegmentKind) : Progresses source (discoverChain source steps label kind) := by
  -- Every step of the chain is the discovery of one label.
  induction steps generalizing label kind with
  | zero => exact .pure ()
  | succ steps ih =>
    refine .bind (walks_discoverOne source label kind) (progresses_discoverOne source label kind)
      fun next => ?_
    cases next with
    | none => exact .pure ()
    | some next => exact ih next .code

/-- The discovery of what some requests ask for is counted. -/
theorem progresses_discoverAll (source : Source) (requests : Requests) :
    Progresses source (discoverAll source requests) := by
  -- The requests are served in turn, each by a chain.
  induction requests with
  | nil => exact .pure ()
  | cons request rest ih =>
    exact .bind (walks_discoverChain source _ _ _) (progresses_discoverChain source _ _ _)
      fun _ => ih

end QuestScript
