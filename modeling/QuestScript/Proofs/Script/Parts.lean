import QuestScript.Proofs.Script.Layout

/-! The parts of a script: its instructions, its data and its texts, each of them written behind all
that comes before it. -/

namespace QuestScript

/-- A range of bytes. -/
structure Span where
  offset : Nat
  size : Nat
deriving DecidableEq, Repr

/-- Ranges of the given sizes, each behind the one before it. -/
def spansFrom : Nat → List Nat → List Span
  | _, [] => []
  | start, size :: sizes => ⟨start, size⟩ :: spansFrom (start + size) sizes

/-- Ranges follow each other from a start to an end, without gap or overlap. -/
inductive Span.Tiles : Nat → Nat → List Span → Prop where
  | nil (place : Nat) : Tiles place place []
  | cons {size stop : Nat} {rest : List Span} (start : Nat)
    (others : Tiles (start + size) stop rest) : Tiles start stop (⟨start, size⟩ :: rest)

/-- Ranges that are put behind each other end where their sizes add up to. -/
theorem tiles_spansFrom (start : Nat) (sizes : List Nat) :
    Span.Tiles start (start + sizes.sum) (spansFrom start sizes) := by
  induction sizes generalizing start with
  | nil => exact .nil start
  | cons size sizes ih =>
    -- The first range ends where the others start.
    rw [List.sum_cons, ← Nat.add_assoc]
    exact .cons start (ih (start + size))

/-- More ranges start where the others end. -/
theorem spansFrom_append (start : Nat) (sizes more : List Nat) :
    spansFrom start (sizes ++ more) =
      spansFrom start sizes ++ spansFrom (start + sizes.sum) more := by
  induction sizes generalizing start with
  | nil => rfl
  | cons size sizes ih =>
    -- The first size moves the start of all that follow.
    rw [List.cons_append, spansFrom, spansFrom, ih, List.sum_cons, Nat.add_assoc, List.cons_append]

/-- A part of a script: the segments in front of it, and what it is written as. -/
structure Part where
  front : List Segment
  written : Except EncodeError (List UInt8)

/-- A part is found in a range of the bytes of a script: behind all bytes that are written for what
is in front of it, and as long as what is written for it. -/
def Part.StandsAt (width : CharWidth) (encoded : EncodedScript) (part : Part) (span : Span) :
    Prop :=
  ∃ before bytes behind, (⟨part.front⟩ : Script).encode width = .ok before ∧
    part.written = .ok bytes ∧ encoded.bytes = before.bytes ++ bytes ++ behind ∧
    span = ⟨before.bytes.length, bytes.length⟩

/-- The instructions of code as parts, behind the first ones of the same code. -/
def codeParts (width : CharWidth) (front : List Segment) (labels : LabelSet) :
    (first rest : List Instruction) → List Part
  | _, [] => []
  | first, instruction :: rest =>
    ⟨front ++ [⟨labels, .code first⟩], instruction.encode width⟩ ::
      codeParts width front labels (first ++ [instruction]) rest

namespace Segment

/-- A segment as a part. -/
def whole (width : CharWidth) (front : List Segment) (segment : Segment) : List Part :=
  [⟨front, segment.encode width⟩]

/-- The instructions of a segment as parts, or the segment itself if it is no code. -/
def parts (width : CharWidth) (front : List Segment) (segment : Segment) : List Part :=
  match segment.content with
  | .code instructions => codeParts width front segment.labels [] instructions
  | _ => segment.whole width front

/-- The sizes of the parts of a segment. -/
def partSizes (width : CharWidth) (segment : Segment) : List Nat :=
  match segment.content with
  | .code instructions => instructions.map (·.size width)
  | _ => [segment.size width]

end Segment

/-- What is made of each segment and all in front of it. -/
def gatherParts (make : List Segment → Segment → List Part) :
    (front rest : List Segment) → List Part
  | _, [] => []
  | front, segment :: rest => make front segment ++ gatherParts make (front ++ [segment]) rest

namespace Script

/-- The segments of a script as parts. -/
def wholes (width : CharWidth) (script : Script) : List Part :=
  gatherParts (Segment.whole width) [] script.segments

/-- The instructions of a script, and the segments that are no code, as parts. -/
def parts (width : CharWidth) (script : Script) : List Part :=
  gatherParts (Segment.parts width) [] script.segments

end Script

/-- Segments are written as some bytes. -/
def Writes (width : CharWidth) (segments : List Segment) (bytes : List UInt8) : Prop :=
  ∃ pieces, segments.mapM (·.encode width) = .ok pieces ∧ pieces.flatten = bytes

section

variable {width : CharWidth} {front segments : List Segment} {segment : Segment}
  {before bytes : List UInt8}

/-- Segments that are written are those of a script that is. -/
theorem Writes.encode (wrote : Writes width segments bytes) :
    ∃ encoded, (⟨segments⟩ : Script).encode width = .ok encoded ∧ encoded.bytes = bytes := by
  obtain ⟨pieces, each, rfl⟩ := wrote
  -- The pieces are joined, and the labels placed where the pieces start.
  refine ⟨⟨pieces.flatten, labelTable ((segments.map (·.labels)).zip
    (startsFrom 0 (pieces.map List.length)))⟩, ?_, rfl⟩
  rw [Script.encode, each]
  rfl

/-- One more segment is written behind the others. -/
theorem Writes.concat (wrote : Writes width front before)
    (next : segment.encode width = .ok bytes) :
    Writes width (front ++ [segment]) (before ++ bytes) := by
  obtain ⟨pieces, each, rfl⟩ := wrote
  exact ⟨pieces ++ [bytes], mapM_concat_of_ok each next, List.flatten_concat⟩

/-- Parts are written one behind the other as some pieces, the first of them behind the bytes
before. -/
inductive Laid (width : CharWidth) : List UInt8 → List Part → List (List UInt8) → Prop where
  | nil (before : List UInt8) : Laid width before [] []
  | cons {before bytes : List UInt8} {part : Part} {parts : List Part}
    {pieces : List (List UInt8)} (front : Writes width part.front before)
    (here : part.written = .ok bytes) (behind : Laid width (before ++ bytes) parts pieces) :
    Laid width before (part :: parts) (bytes :: pieces)

/-- More parts are written behind the others. -/
theorem Laid.append {parts more : List Part} {pieces others : List (List UInt8)}
    (laid : Laid width before parts pieces)
    (behind : Laid width (before ++ pieces.flatten) more others) :
    Laid width before (parts ++ more) (pieces ++ others) := by
  induction laid with
  | nil before => simpa using behind
  | cons front here _ ih =>
    -- The first piece stands before all that follow.
    rw [List.flatten_cons, ← List.append_assoc] at behind
    exact .cons front here (ih behind)

/-- Parts that are written one behind the other are found in ranges behind each other. -/
theorem Laid.standsAt {encoded : EncodedScript} {parts : List Part} {pieces : List (List UInt8)}
    {behind : List UInt8} (laid : Laid width before parts pieces)
    (all : encoded.bytes = before ++ pieces.flatten ++ behind) :
    List.Forall₂ (Part.StandsAt width encoded) parts
      (spansFrom before.length (pieces.map List.length)) := by
  induction laid with
  | nil before => exact .nil
  | @cons before bytes part parts pieces front here _ ih =>
    obtain ⟨written, encodes, rfl⟩ := front.encode
    rw [List.flatten_cons] at all
    refine .cons ⟨written, bytes, pieces.flatten ++ behind, encodes, here, ?_, rfl⟩ ?_
    · simpa using all
    · -- The next part starts where this one ends.
      rw [← List.length_append]
      exact ih (by simpa using all)

/-- Code is written instruction by instruction. -/
theorem laid_codeParts {labels : LabelSet} {first rest : List Instruction}
    {done pieces : List (List UInt8)} (wrote : Writes width front before)
    (earlier : first.mapM (·.encode width) = .ok done)
    (later : rest.mapM (·.encode width) = .ok pieces) :
    Laid width (before ++ done.flatten) (codeParts width front labels first rest) pieces := by
  -- Each instruction joins the code in front of the next one.
  induction rest generalizing first done pieces with
  | nil =>
    cases later
    exact .nil _
  | cons instruction rest ih =>
    obtain ⟨bytes, others, here, behind, rfl⟩ := mapM_cons_eq_ok later
    -- What is in front of the instruction is the code up to it.
    have code : (⟨labels, .code first⟩ : Segment).encode width = .ok done.flatten := by
      simp only [Segment.encode]
      rw [earlier]
      rfl
    have laid := ih (mapM_concat_of_ok earlier here) behind
    rw [List.flatten_concat, ← List.append_assoc] at laid
    exact .cons (wrote.concat code) here laid

/-- Parts made of a segment, and their sizes, are those that it is written in. -/
def Divides (width : CharWidth) (make : List Segment → Segment → List Part)
    (sizes : Segment → List Nat) : Prop :=
  ∀ {front : List Segment} {segment : Segment} {before bytes : List UInt8},
    (∀ instruction ∈ segment.instructions, instruction.Supplied) →
    Writes width front before → segment.encode width = .ok bytes →
    ∃ pieces, Laid width before (make front segment) pieces ∧ pieces.flatten = bytes ∧
      pieces.map List.length = sizes segment

/-- A segment is written as a whole. -/
theorem divides_whole :
    Divides width (Segment.whole width) fun segment => [segment.size width] := by
  intro front segment before bytes supplied wrote encodes
  -- The segment is its own only part, whose size is that of its bytes.
  refine ⟨[bytes], .cons wrote encodes (.nil _), by simp, ?_⟩
  simp [Segment.length_of_supplied supplied encodes]

/-- A segment is written in its parts. -/
theorem divides_parts : Divides width (Segment.parts width) (Segment.partSizes width) := by
  intro front segment before bytes supplied wrote encodes
  obtain ⟨labels, content⟩ := segment
  cases content with
  | code instructions =>
    -- Code is written instruction by instruction, each of which has its size.
    obtain ⟨pieces, each, made⟩ := except_bind_eq_ok encodes
    cases made
    have none : ([] : List Instruction).mapM (·.encode width) = .ok [] := rfl
    have laid : Laid width (before ++ [].flatten) (codeParts width front labels [] instructions)
      pieces := laid_codeParts wrote none each
    rw [List.flatten_nil, List.append_nil] at laid
    refine ⟨pieces, laid, rfl, map_eq_of_mapM (fun instruction listed bytes written => ?_) each⟩
    exact Instruction.length_of_supplied (supplied instruction listed) written
  -- All else is a single part.
  | data data => exact divides_whole supplied wrote encodes
  | text value stored => exact divides_whole supplied wrote encodes

/-- Segments are written in the parts that are made of each of them. -/
theorem Divides.gatherParts {make : List Segment → Segment → List Part}
    {sizes : Segment → List Nat} (divides : Divides width make sizes)
    {after : List UInt8}
    (supplied : ∀ segment ∈ segments, ∀ instruction ∈ segment.instructions, instruction.Supplied)
    (wrote : Writes width front before) (rest : Writes width segments after) :
    ∃ pieces, Laid width before (gatherParts make front segments) pieces ∧
      pieces.flatten = after ∧ pieces.map List.length = segments.flatMap sizes := by
  obtain ⟨wholes, each, rfl⟩ := rest
  -- What was written moves to the front, segment by segment.
  induction segments generalizing front before wholes with
  | nil =>
    cases each
    exact ⟨[], .nil _, rfl, rfl⟩
  | cons segment segments ih =>
    obtain ⟨bytes, others, here, behind, rfl⟩ := mapM_cons_eq_ok each
    obtain ⟨complete, remaining⟩ := List.forall_mem_cons.mp supplied
    obtain ⟨first, laid, rfl, lengths⟩ := divides complete wrote here
    obtain ⟨pieces, laidBehind, same, others⟩ := ih remaining (wrote.concat here) _ behind
    refine ⟨first ++ pieces, laid.append laidBehind, ?_, ?_⟩
    · rw [List.flatten_append, same, List.flatten_cons]
    · rw [List.map_append, lengths, others, List.flatMap_cons]

/-- The parts of a script that is written are found in ranges of their sizes. -/
theorem Divides.standsAt {make : List Segment → Segment → List Part} {sizes : Segment → List Nat}
    (divides : Divides width make sizes) {script : Script} {encoded : EncodedScript}
    (supplied : ∀ instruction ∈ script.instructions, instruction.Supplied)
    (written : script.encode width = .ok encoded) :
    List.Forall₂ (Part.StandsAt width encoded) (QuestScript.gatherParts make [] script.segments)
      (spansFrom 0 (script.segments.flatMap sizes)) := by
  obtain ⟨wholes, each, made⟩ := except_bind_eq_ok written
  have nothing : Writes width [] [] := ⟨[], rfl, rfl⟩
  obtain ⟨pieces, laid, all, lengths⟩ :=
    divides.gatherParts (List.forall_mem_flatMap.mp supplied) nothing ⟨wholes, each, rfl⟩
  cases made
  -- All bytes are those of the parts: none stand before the first or behind the last.
  rw [← lengths, ← List.length_nil]
  refine laid.standsAt (?_ : wholes.flatten = [] ++ pieces.flatten ++ [])
  rw [all, List.nil_append, List.append_nil]

end

end QuestScript
