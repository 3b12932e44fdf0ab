import QuestScript.Proofs.Discovery.Invariant

/-! Discoveries that go the same way in two scripts.

The scripts may differ in bytes that no text, no code and no data of the last state depends on. Data
that is replaced later may still differ, so that the states are compared up to their data. -/

namespace QuestScript

/-- A segment with the data that a source has in its place. -/
def Segment.rebase (source : Source) (offset : Nat) (segment : Segment) : Segment :=
  match segment.content with
  | .data _ => ⟨segment.labels, .data (source.slice offset (source.stopAt offset))⟩
  | _ => segment

/-- Segments with the data that a source has in their places. -/
def SegmentMap.rebase (source : Source) (map : SegmentMap) : SegmentMap :=
  List.map (fun entry => (entry.1, entry.2.rebase source entry.1)) map

/-- A discovery with the data that a source has in place of its own. -/
def Discovery.rebase (source : Source) (state : Discovery) : Discovery :=
  { state with segments := state.segments.rebase source }

namespace Segment

variable (source : Source) (offset : Nat) (segment : Segment)

/-- Other data is data. -/
@[simp] theorem rebase_kind : (segment.rebase source offset).kind = segment.kind := by
  obtain ⟨labels, content⟩ := segment
  cases content <;> rfl

/-- Other data carries the same labels. -/
@[simp] theorem rebase_labels : (segment.rebase source offset).labels = segment.labels := by
  obtain ⟨labels, content⟩ := segment
  cases content <;> rfl

/-- A label is put on other data in the same way. -/
theorem rebase_addLabel (label : Label) :
    (segment.addLabel label).rebase source offset = (segment.rebase source offset).addLabel label := by
  obtain ⟨labels, content⟩ := segment
  cases content <;> rfl

end Segment

namespace SegmentMap

variable (source : Source) (map : SegmentMap) (offset : Nat) (segment : Segment)

/-- Other data is found where data was. -/
theorem find?_rebase :
    (map.rebase source).find? offset =
      (map.find? offset).map (·.rebase source offset) := by
  -- Offsets stay as they are, so that the search stops at the same segment.
  induction map with
  | nil => rfl
  | cons first rest ih =>
    by_cases here : first.1 = offset
    · simp [rebase, find?, here]
    · have passed : (first.1 == offset) = false := by simpa using here
      simpa [rebase, find?, List.find?_cons, passed] using ih

/-- A segment is put among other data in the same way. -/
theorem rebase_insert :
    (map.insert offset segment).rebase source =
      (map.rebase source).insert offset (segment.rebase source offset) := by
  -- Offsets alone say where a segment goes.
  induction map with
  | nil => rfl
  | cons first rest ih =>
    change _ = SegmentMap.insert
      ((first.1, first.2.rebase source first.1) :: SegmentMap.rebase source rest) _ _
    unfold SegmentMap.insert
    split
    · rfl
    · split
      · rfl
      · rw [← ih]
        rfl

/-- There are as many segments with other data. -/
@[simp] theorem length_rebase : (map.rebase source).length = map.length := List.length_map _

end SegmentMap

namespace Discovery

variable (source : Source) (state : Discovery)

/-- A segment is put among other data in the same way. -/
theorem rebase_setSegment (offset : Nat) (segment : Segment) :
    (state.setSegment offset segment).rebase source =
      (state.rebase source).setSegment offset (segment.rebase source offset) := by
  simp only [rebase, setSegment, SegmentMap.rebase_insert]

/-- A report does not depend on data. -/
theorem rebase_reportUnregistered (options : ParseOptions) (label : Label) :
    (state.reportUnregistered options label).rebase source =
      (state.rebase source).reportUnregistered options label := by
  -- Only the labels that were reported before decide.
  unfold reportUnregistered
  have same : (state.rebase source).reported = state.reported := rfl
  rw [same]
  split
  · rfl
  · rfl

/-- The code that has been discovered does not depend on data. -/
theorem codeSegments_rebase : (state.rebase source).codeSegments = state.codeSegments := by
  -- Only data changes, and data is no code.
  simp only [codeSegments, rebase, SegmentMap.rebase, List.filterMap_map]
  congr 1
  funext entry
  obtain ⟨offset, labels, content⟩ := entry
  cases content <;> rfl

/-- A harvest does not depend on data. -/
theorem harvest_rebase (bound : Nat) :
    (state.rebase source).harvest bound =
      ((state.harvest bound).1, (state.harvest bound).2.rebase source) := by
  -- Both harvest the same code, and neither looks at anything else.
  have analyzed : (state.rebase source).analyzed = state.analyzed := rfl
  simp only [harvest, codeSegments_rebase, analyzed]
  rfl

end Discovery

/-- Two scripts that differ nowhere in what a discovery has come to. -/
structure Source.Echoes (first second : Source) (last : Discovery) : Prop where
  index : second.index = first.index
  options : second.options = first.options
  size : second.bytes.length = first.bytes.length
  text : ∀ offset segment, last.segments.find? offset = some segment →
    second.decodeText offset (second.stopAt offset) = first.decodeText offset (first.stopAt offset)
  code : ∀ offset segment, last.segments.find? offset = some segment → segment.kind = .code →
    second.decodeSegment offset (second.stopAt offset) =
      first.decodeSegment offset (first.stopAt offset)

/-- A computation that does the same in two scripts, up to data, on its way to a last state. -/
def Replays (second : Source) (last : Discovery) {α : Type} (run again : Discovering α) : Prop :=
  ∀ state value next, run state = .ok value next → next.Grows last →
    again (state.rebase second) = .ok value (next.rebase second)

namespace Replays

variable {first second : Source} {last : Discovery} {α β : Type}

/-- A result alone is the same. -/
theorem pure (value : α) : Replays second last (Pure.pure value) (Pure.pure value) := by
  -- Nothing is done that could differ.
  intro state result next run grown
  obtain ⟨rfl, rfl⟩ := pure_eq_ok run
  rfl

/-- Two computations do the same if each of them does. -/
theorem bind {run again : Discovering α} {more moreAgain : α → Discovering β}
    (front : Replays second last run again)
    (back : ∀ value, Replays second last (more value) (moreAgain value))
    (walks : ∀ value, Walks first (more value)) :
    Replays second last (run >>= more) (again >>= moreAgain) := by
  intro state result next ran grown
  obtain ⟨value, middle, firstRan, secondRan⟩ := bind_eq_ok ran
  -- What is between the two has grown into the last state as well.
  have reached := walks value middle
  rw [secondRan] at reached
  have grownMiddle := (Discovery.grows_of_reaches reached).trans grown
  rw [bind_of_ok (front state value middle firstRan grownMiddle)]
  exact back value middle result next secondRan grown

end Replays

variable {first second : Source} {last : Discovery}

/-- A range is decoded in the same way. -/
theorem replays_decodeAt (echoes : first.Echoes second last) (offset : Nat) (kind : SegmentKind)
    (labels : LabelSet) :
    Replays second last (decodeAt first offset kind labels)
      (decodeAt second offset kind labels) := by
  intro state value next run grown
  -- The range ends at the same place.
  have stop : second.index.rangeEnd second.bytes.length offset =
      first.index.rangeEnd first.bytes.length offset := by rw [echoes.index, echoes.size]
  cases kind with
  | data =>
    cases run
    rw [Discovery.rebase_setSegment]
    rfl
  | text =>
    -- Whatever the range becomes here, the last state has something there.
    have same : ∀ {segment : Segment}, next.segments.find? offset = some segment →
        second.decodeText offset (second.index.rangeEnd second.bytes.length offset) =
          first.decodeText offset (first.index.rangeEnd first.bytes.length offset) := by
      intro segment found
      obtain ⟨later, foundLater, -⟩ := grown offset segment found
      exact echoes.text offset later foundLater
    cases read : first.decodeText offset (first.index.rangeEnd first.bytes.length offset) with
    | ok text =>
      simp only [decodeAt, read] at run
      cases run
      have readAgain := (same SegmentMap.find?_insert_self).trans read
      simp only [decodeAt, readAgain]
      rw [Discovery.rebase_setSegment, stop]
      rfl
    | error cause =>
      simp only [decodeAt, read] at run
      cases run
      have readAgain := (same SegmentMap.find?_insert_self).trans read
      simp only [decodeAt, readAgain]
      rw [Discovery.rebase_setSegment]
      rfl
  | code =>
    cases read : first.decodeSegment offset (first.index.rangeEnd first.bytes.length offset) with
    | error failure =>
      simp only [decodeAt, read] at run
      cases run
    | ok result =>
      obtain ⟨instructions, journal⟩ := result
      simp only [decodeAt, read] at run
      cases run
      -- Code stays what it is, so that it is there in the last state.
      obtain ⟨later, foundLater, stays⟩ := grown offset _ SegmentMap.find?_insert_self
      have same : second.decodeSegment offset
          (second.index.rangeEnd second.bytes.length offset) = .ok (instructions, journal) := by
        rw [← read]
        exact echoes.code offset later foundLater (by rw [Segment.kind, stays.code rfl]; rfl)
      simp only [decodeAt, same]
      rw [echoes.index, Discovery.rebase_setSegment]
      rfl

/-- The range at one label is discovered in the same way. -/
theorem replays_discoverOne (echoes : first.Echoes second last) (label : Label)
    (kind : SegmentKind) :
    Replays second last (discoverOne first label kind) (discoverOne second label kind) := by
  intro state value next run grown
  unfold discoverOne at run ⊢
  rw [echoes.index, echoes.options, echoes.size]
  -- What is looked up agrees up to data, and data has the same kind and labels.
  have find := SegmentMap.find?_rebase second state.segments
  change ∀ offset, (state.rebase second).segments.find? offset = _ at find
  have texts : (state.rebase second).invalidTexts = state.invalidTexts := rfl
  split at run
  · -- A label without a place is reported in both.
    cases run
    rw [Discovery.rebase_reportUnregistered]
  · split at run
    · cases run
      rename_i past
      rw [if_pos past]
      rfl
    · rename_i offset placed inside
      rw [if_neg inside, find]
      -- At a place inside the script, a range is decoded that is fresh, or that is known and has to
      -- be decoded again.
      split at run
      · rename_i fresh
        rw [fresh]
        exact replays_decodeAt echoes offset kind [label] state value next run grown
      · rename_i existing here
        rw [here]
        dsimp only [Option.map_some] at run ⊢
        rw [← Segment.rebase_addLabel, ← Discovery.rebase_setSegment, Segment.rebase_labels,
          Segment.rebase_kind]
        split at run
        · rename_i again
          rw [if_pos (by exact again)]
          exact replays_decodeAt echoes offset kind _ _ value next run grown
        · rename_i enough
          rw [if_neg (by exact enough)]
          cases run
          rfl

/-- The code that control drops into is discovered in the same way. -/
theorem replays_discoverChain (echoes : first.Echoes second last) (steps : Nat) (label : Label)
    (kind : SegmentKind) :
    Replays second last (discoverChain first steps label kind)
      (discoverChain second steps label kind) := by
  -- The chain goes on with the label that both scripts drop into.
  induction steps generalizing label kind with
  | zero => exact .pure ()
  | succ steps ih =>
    refine (replays_discoverOne echoes label kind).bind (fun next => ?_)
      (fun next => (?_ : Walks first _))
    · cases next with
      | none => exact .pure ()
      | some next => exact ih next .code
    · cases next with
      | none => exact .pure ()
      | some next => exact walks_discoverChain first steps next .code

/-- What some requests ask for is discovered in the same way. -/
theorem replays_discoverAll (echoes : first.Echoes second last) (requests : Requests) :
    Replays second last (discoverAll first requests) (discoverAll second requests) := by
  -- Each chain is run in the same way, with as many steps as there are places.
  induction requests with
  | nil => exact .pure ()
  | cons request rest ih =>
    refine Replays.bind ?_ (fun _ => ih) (fun _ => walks_discoverAll first rest)
    unfold discover
    rw [echoes.index]
    exact replays_discoverChain echoes _ _ _

/-- The end of a pass: what it has harvested, whether it has decoded anything, and what is left. -/
def passEnd (source : Source) (pass before : Nat) (state : Discovery) :
    (Requests × Bool) × Discovery :=
  let (requests, state) := state.harvest source.options.cardinalityBound
  ((requests, before < state.segments.length || state.redecoded != 0),
    state.log [⟨.debug, .discovery, s!"Discovery pass {pass}: {state.segments.length} segments, " ++
      s!"{state.analyzed.length} analyzed, {requests.length} pending labels"⟩])

/-- A pass discovers what its requests ask for, and then it comes to its end. -/
theorem discoveryPass_eq_ok {source : Source} {pass : Nat} {pending : Requests}
    {state next : Discovery} {result : Requests × Bool} :
    discoveryPass source pass pending state = .ok result next ↔
      ∃ middle, discoverAll source pending { state with redecoded := 0 } = .ok () middle ∧
        passEnd source pass state.segments.length middle = (result, next) := by
  -- Before the requests the count of segments is taken, and that of replacements is cleared.
  change (discoverAll source pending >>= fun _ last =>
    let made := passEnd source pass state.segments.length last
    .ok made.1 made.2) { state with redecoded := 0 } = .ok result next ↔ _
  constructor
  · intro run
    obtain ⟨_, middle, discovered, made⟩ := bind_eq_ok run
    simp only [EStateM.Result.ok.injEq] at made
    exact ⟨middle, discovered, Prod.ext made.1 made.2⟩
  · rintro ⟨middle, discovered, made⟩
    refine (bind_of_ok discovered).trans ?_
    simp only [made]

/-- A pass comes to the same end. -/
theorem passEnd_rebase (echoes : first.Echoes second last) (pass before : Nat) (state : Discovery) :
    passEnd second pass before (state.rebase second) =
      ((passEnd first pass before state).1, (passEnd first pass before state).2.rebase second) := by
  -- Data that is read again stays in its place, so that there are as many segments.
  have count : ∀ other : Discovery, (other.rebase second).segments.length = other.segments.length :=
    fun other => SegmentMap.length_rebase second other.segments
  simp only [passEnd, echoes.options, Discovery.harvest_rebase, count]
  rfl

/-- A pass goes the same way. -/
theorem replays_discoveryPass (echoes : first.Echoes second last) (pass : Nat)
    (pending : Requests) :
    Replays second last (discoveryPass first pass pending) (discoveryPass second pass pending) := by
  intro state value next run grown
  obtain ⟨middle, discovered, made⟩ := discoveryPass_eq_ok.mp run
  -- The end of the pass keeps the segments that the requests have discovered.
  have kept : middle.Grows next := by
    have same : next = (passEnd first pass state.segments.length middle).2 := by rw [made]
    rw [same]
    exact Discovery.grows_of_eq rfl
  -- The requests are the same, and the count of segments does not depend on data.
  have again := replays_discoverAll echoes pending _ _ _ discovered (kept.trans grown)
  refine discoveryPass_eq_ok.mpr ⟨middle.rebase second, again, ?_⟩
  have count : (state.rebase second).segments.length = state.segments.length :=
    SegmentMap.length_rebase second state.segments
  rw [count, passEnd_rebase echoes, made]

/-- Passes go the same way. -/
theorem replays_discoveryPasses (echoes : first.Echoes second last) (passes pass : Nat)
    (pending : Requests) :
    Replays second last (discoveryPasses first passes pass pending)
      (discoveryPasses second passes pass pending) := by
  -- Each pass hands the same requests to the next one, or both scripts stop.
  induction passes generalizing pass pending with
  | zero => exact .pure _
  | succ passes ih =>
    refine (replays_discoveryPass echoes pass pending).bind (fun result => ?_)
      (fun result => (?_ : Walks first _))
    · obtain ⟨requests, progress⟩ := result
      cases progress with
      | true => exact ih (pass + 1) requests
      | false => exact .pure pass
    · obtain ⟨requests, progress⟩ := result
      cases progress with
      | true => exact walks_discoveryPasses first passes (pass + 1) requests
      | false => exact .pure pass

/-- A discovery whose end holds in another script, too, goes the same way there. -/
theorem runDiscovery_echoes (echoes : first.Echoes second last) {entries : List Label}
    {passes : Nat} (run : runDiscovery first entries {} = .ok passes last) :
    runDiscovery second entries {} = .ok passes (last.rebase second) := by
  unfold runDiscovery at run ⊢
  -- Both start from nothing, with the same bound on passes.
  rw [echoes.index]
  exact replays_discoveryPasses echoes _ 1 _ {} passes last run (.refl last)

end QuestScript
