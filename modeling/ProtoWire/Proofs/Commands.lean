import ProtoWire.CommandLine
import ProtoWire.Directory
import ProtoWire.Proofs.Codec.Streams
import ProtoWire.Proofs.Codec.Weakening
import ProtoWire.Proofs.Proto.Compilation

/-!
Contract: the command that decodes a message from a frame at the start of a file. It prints what
the payload of the frame stands for, under every schema that leaves the name free under which the
command registers the frame.

Owns:
- the files of a directory, read by their names;
- what stands at the start of some data under a framing: a frame, or a reason why there is none;
- what the command prints for it, and why it fails.

Does not own: how the words of a command line are read.
-/

namespace ProtoWire

/-! ### Files -/

namespace Directory

variable {directory : Directory}

/-- What stands above a file is a directory. -/
theorem hasBelow_of_file?
    {place rest : Path}
    {content : List UInt8}
    (found : directory.file? (place ++ rest) = some content)
    (proper : rest ≠ []) :
    directory.hasBelow place = true := by
  obtain ⟨file, first, -⟩ := Option.map_eq_some_iff.mp found
  have same := List.find?_some first
  have path : file.1 = place ++ rest := eq_of_beq same
  refine List.any_eq_true.mpr ⟨file, List.mem_of_find?_eq_some first, ?_⟩
  simp [path, proper]

/-- Names lead from a place to what stands under them. -/
theorem follow_enter
    {place names : Path}
    {content : List UInt8}
    (found : directory.file? (place ++ names) = some content)
    (proper : names ≠ []) :
    directory.follow place (names.map .enter) = some content := by
  induction names generalizing place with
  | nil => exact absurd rfl proper
  | cons name others inductionHypothesis =>
      rw [List.append_cons] at found
      cases others with
      | nil =>
          rw [List.append_nil] at found
          rw [← found]
          cases place <;> rfl
      | cons other more =>
          have below := hasBelow_of_file? found (List.cons_ne_nil _ _)
          rw [← inductionHypothesis found (List.cons_ne_nil _ _), List.map_cons, List.map_cons]
          cases place <;> exact if_pos below

/-- A file is read by its names with slashes between them, if none of them is a step by itself or
has a slash in it. -/
theorem read?_intercalate
    {names : Path}
    {content : List UInt8}
    (found : directory.file? names = some content)
    (proper : names ≠ [])
    (plain : ∀ name ∈ names, PathStep.ofText name = .enter name ∧ '/' ∉ name.toList) :
    directory.read? ("/".intercalate names) = some content := by
  have parts : Path.ofText ("/".intercalate names) = names := by
    have apart : ∀ text ∈ names.map String.toList, '/' ∉ text := by
      intro text member
      obtain ⟨name, inside, rfl⟩ := List.mem_map.mp member
      exact (plain name inside).2
    have split := List.splitOn_intercalate '/' apart (mt List.map_eq_nil_iff.mp proper)
    rw [Path.ofText, String.toList_intercalate]
    change (List.splitOn '/' (['/'].intercalate (names.map String.toList))).map String.ofList = names
    rw [split]
    simp
  have steps : PathStep.ofPath ("/".intercalate names) = names.map .enter := by
    rw [PathStep.ofPath, parts]
    exact List.map_congr_left fun name member => (plain name member).1
  -- A slash in front would make the first name empty.
  have relative : ("/".intercalate names).toList.head? ≠ some '/' := by
    intro absolute
    obtain ⟨rest, rooted⟩ := List.head?_eq_some_iff.mp absolute
    rw [Path.ofText, rooted, List.splitOn_cons_eq_if_modifyHead, if_pos (beq_self_eq_true '/'),
      List.map_cons] at parts
    have empty : "" ∈ names := parts ▸ List.mem_cons_self
    exact nomatch (plain "" empty).1
  rw [read?, if_neg relative, steps]
  exact follow_enter found proper

end Directory

/-! ### The first frame -/

namespace Framing

variable {framing : Framing} {content : List UInt8}

/-- What stands at the start of some data: a payload behind its length, with the count of the bytes
behind it, or no frame. -/
inductive Opens (framing : Framing) :
    List UInt8 → Except WireError (List UInt8 × Nat) → Prop where
  | frame
      {front payload behind : List UInt8}
      (length : framing.readLength.Reads front payload.length) :
      Opens framing (front ++ (payload ++ behind)) (.ok (payload, behind.length))
  /-- Fewer bytes follow the length than it asks for. -/
  | overrun
      {front behind : List UInt8}
      {length : Nat}
      (read : framing.readLength.Reads front length)
      (few : behind.length < length) :
      Opens framing (front ++ behind)
        (.error (.invalidFraming (.frameOverrun length 0 behind.length)))
  /-- The length is cut off, malformed or negative. -/
  | noLength
      {content : List UInt8}
      {cause : WireError}
      {after : Cursor}
      (failed : framing.readLength (Cursor.ofBytes content) = .error cause after) :
      Opens framing content (.error cause)

/-- Under every framing, there is a frame at the start of some data or a reason why not. -/
theorem exists_opens (framing : Framing) (content : List UInt8) :
    ∃ start, framing.Opens content start := by
  cases read : framing.readLength (Cursor.ofBytes content) with
  | error cause after => exact ⟨_, .noLength read⟩
  | ok length middle =>
      obtain ⟨front, start, reads⟩ := framing.isLocal_readLength _ _ _ read
      obtain rfl : content = front ++ middle.rest := start
      by_cases enough : length ≤ middle.rest.length
      · have exact : (middle.rest.take length).length = length := List.length_take_of_le enough
        rw [← List.take_append_drop length middle.rest]
        exact ⟨_, .frame (by rwa [exact])⟩
      · exact ⟨_, .overrun reads (Nat.lt_of_not_le enough)⟩

/-- The length decides what is taken. -/
theorem readPayload_of_readLength
    {cursor middle : Cursor}
    {length : Nat}
    (read : framing.readLength cursor = .ok length middle) :
    framing.readPayload cursor =
      if middle.has length then Reader.bytes length middle
      else
        .error (.invalidFraming (.frameOverrun length cursor.offset middle.remaining)) middle := by
  rw [readPayload, Reader.bind_get, Reader.bind_of_ok read, Reader.bind_get]
  cases middle.has length <;> rfl

theorem Opens.readPayload_eq_ok
    {payload : List UInt8}
    {behind : Nat}
    (opens : framing.Opens content (.ok (payload, behind))) :
    ∃ after, framing.readPayload (Cursor.ofBytes content) = .ok payload after ∧
      after.offset + behind = content.length := by
  cases opens with
  | @frame front payload behind length =>
      have enough : Cursor.has ⟨0 + front.length, payload ++ behind⟩ payload.length = true := by
        rw [Cursor.has_iff, Cursor.remaining, List.length_append]
        exact Nat.le_add_right _ _
      have read := length 0 (payload ++ behind)
      have opened := (readPayload_of_readLength read).trans (if_pos enough)
      refine ⟨_, opened.trans (Reader.reads_bytes payload _ behind), ?_⟩
      simp only [List.length_append]
      omega

theorem Opens.readPayload_eq_error
    {cause : WireError}
    (opens : framing.Opens content (.error cause)) :
    ∃ after, framing.readPayload (Cursor.ofBytes content) = .error cause after := by
  cases opens with
  | @overrun front behind length read few =>
      have none : ¬ Cursor.has ⟨0 + front.length, behind⟩ length = true := by
        rw [Cursor.has_iff]
        exact Nat.not_le.mpr few
      exact ⟨_, (readPayload_of_readLength (read 0 behind)).trans (if_neg none)⟩
  | @noLength _ _ after failed =>
      refine ⟨after, ?_⟩
      rw [readPayload, Reader.bind_get]
      exact Reader.bind_of_error failed

end Framing

/-! ### The command -/

namespace CommandLine

/-- What is printed for a value and the count of the bytes behind it. -/
def printedValue (value : Value) (behind : Nat) : Printed :=
  ⟨value.text ++ "\n",
    if 0 < behind then s!"{behind} trailing bytes after the frame\n" else ""⟩

/-- What is printed for the start of some data: the value that the payload of a frame stands for. -/
def printedFrame
    (schema : Schema)
    (typeName : String)
    (start : Except WireError (List UInt8 × Nat)) :
    Except WireError Printed := do
  let (payload, behind) ← start
  (fun result => printedValue result.1 behind) <$> schema.decode typeName payload

/-- A failure of reading data. -/
def ofWire (cause : WireError) : Failure :=
  .source (.wire cause)

/-- No keyword has a point in it. -/
private theorem ofName?_frame (typeName : String) :
    Scalar.ofName? (typeName ++ ".frame") = none := by
  rw [Scalar.ofName?, List.find?_eq_none]
  intro scalar _ same
  have noPoint : '.' ∉ scalar.name.toList := by cases scalar <;> decide
  rw [eq_of_beq same, String.toList_append] at noPoint
  exact noPoint (List.mem_append_right _ (by decide))

variable
  {files : Files}
  {command : Command}
  {typeName dataPath : String}
  {lengthType : Option String}
  {frameLength : Option Nat}
  {framing : Framing}
  {schema : Schema}
  {message : MessageType}
  {content : List UInt8}

/-- The schema of a command obeys the rules. -/
theorem wellFormed_of_loadSchema (loaded : loadSchema files command = .ok schema) :
    schema.WellFormed := by
  have compiled : ∃ options sources,
      (Proto.compileSources options sources).mapError Failure.source = .ok schema := by
    unfold loadSchema at loaded
    split at loaded
    all_goals
      obtain ⟨configured, -, loaded⟩ := Outcome.bind_eq_ok.mp loaded
      obtain ⟨sources, -, loaded⟩ := Outcome.bind_eq_ok.mp loaded
      exact ⟨_, sources, loaded⟩
  obtain ⟨options, sources, compiled⟩ := compiled
  exact Proto.wellFormed_of_compileSources (Outcome.mapError_eq_ok.mp compiled)

/-- With a framing, data is decoded under a schema with one more definition. -/
private theorem decodeData_framed
    (configured : Framing.ofConfig lengthType frameLength = .ok framing) :
    decodeData schema typeName lengthType frameLength content = (do
      let extended ←
        schema.registerFramed (typeName ++ ".frame") typeName lengthType frameLength
      extended.decode (typeName ++ ".frame") content) := by
  refine if_pos ?_
  cases lengthType with
  | some name => rfl
  | none =>
      cases frameLength with
      | some length => rfl
      | none => cases configured

/-- What is decoded from a file is printed, with the count of the bytes that are left. -/
private theorem run_decode
    (action : command.action = .decode typeName dataPath lengthType frameLength)
    (loaded : loadSchema files command = .ok schema)
    (data : files dataPath = some content) :
    run files command =
      ((fun result : Value × Nat => printedValue result.1 (content.length - result.2)) <$>
        decodeData schema typeName lengthType frameLength content).mapError ofWire := by
  rw [run, loaded, Outcome.ok_bind, action]
  simp only [readBytes, data, Outcome.ok_bind]
  cases decodeData schema typeName lengthType frameLength content with
  | error cause => rfl
  | ok result =>
      obtain ⟨value, consumed⟩ := result
      simp only [printedValue, Nat.sub_pos_iff_lt]
      rfl

/-- The command prints what the payload of the first frame stands for, and fails only if there is no
frame or the payload stands for nothing, unless the sources define the name of the frame. -/
theorem run_framed
    (action : command.action = .decode typeName dataPath lengthType frameLength)
    (loaded : loadSchema files command = .ok schema)
    (defined : ⟨typeName, .message message⟩ ∈ schema.definitions)
    (configured : Framing.ofConfig lengthType frameLength = .ok framing)
    (data : files dataPath = some content) :
    (∃ start, framing.Opens content start) ∧
      ∀ start, framing.Opens content start →
        run files command =
          if typeName ++ ".frame" ∈ schema.definitions.map Definition.name then
            .error (ofWire (.duplicateType (typeName ++ ".frame")))
          else (printedFrame schema typeName start).mapError ofWire := by
  have wellFormed := wellFormed_of_loadSchema loaded
  obtain ⟨index, found⟩ := List.getElem?_of_mem defined
  have resolved := wellFormed.resolve_of_definition? found
  refine ⟨framing.exists_opens content, fun start opens => ?_⟩
  rw [run_decode action loaded data, decodeData_framed configured,
    Schema.registerFramed_of_message configured resolved found]
  by_cases taken : typeName ++ ".frame" ∈ schema.definitions.map Definition.name
  · rw [if_pos taken, Schema.register_of_mem _ taken]
    rfl
  · obtain ⟨extended, registered⟩ : ∃ extended,
        schema.register (typeName ++ ".frame") (.framed ⟨index, framing⟩) = .ok extended :=
      ⟨_, Schema.register_eq_ok.mpr ⟨taken, ofName?_frame typeName, rfl⟩⟩
    rw [if_neg taken, registered, Outcome.ok_bind]
    -- The frame is registered last, so that its payload is decoded as without it.
    cases start with
    | error cause =>
        obtain ⟨after, failed⟩ := opens.readPayload_eq_error
        rw [wellFormed.decode_register_error found registered failed]
        rfl
    | ok pair =>
        obtain ⟨payload, behind⟩ := pair
        obtain ⟨after, opened, count⟩ := opens.readPayload_eq_ok
        obtain rfl : behind = content.length - after.offset := by omega
        rw [wellFormed.decode_register found registered opened, Outcome.map_map]
        rfl

/-- A source, and a message of two bytes in a frame. -/
def framedFiles (source : String) : Files :=
  (Directory.ofList [("a.proto", Word.text source), ("d.bin", [2, 8, 7])]).read?

/-- Decodes the message in the frame. -/
def framedCommand : Command :=
  ⟨["a.proto"], false, none, .decode "M" "d.bin" (some "uint32") none⟩

private theorem opens_framedFiles :
    (Framing.prefixed .uint32).Opens [2, 8, 7] (.ok ([8, 7], 0)) := by
  have length : (Framing.prefixed .uint32).readLength.Reads
      ((Framing.prefixed .uint32).lengthBytes 2) 2 := Framing.reads_length (by decide) rfl
  have bytes : (Framing.prefixed .uint32).lengthBytes 2 = [2] := Varint.encode_of_lt (by decide)
  rw [bytes] at length
  exact @Framing.Opens.frame _ [2] [8, 7] [] length

/-- A message without nested types. -/
def bareSource : String :=
  "message M \x7b optional int32 a = 1; \x7d"

/-- The frame finds its name free. -/
theorem run_framed_bare :
    run (framedFiles bareSource) framedCommand = .ok ⟨"M \x7ba: 7\x7d\n", ""⟩ := by
  have loaded : loadSchema (framedFiles bareSource) framedCommand =
      .ok ⟨[⟨"M", .message ⟨[⟨"a", 1, .scalar .int32, .optional, false⟩], []⟩⟩]⟩ :=
    Outcome.eq_ok_of_toOption (by decide +kernel)
  have configured : Framing.ofConfig (some "uint32") none = .ok (.prefixed .uint32) := rfl
  obtain ⟨-, prints⟩ := run_framed rfl loaded List.mem_cons_self configured rfl
  rw [prints _ opens_framedFiles]
  exact Outcome.eq_ok_of_toOption (by decide +kernel)

/-- A message with a nested message under the name of the frame. -/
def nestedSource : String :=
  "message M \x7b optional int32 a = 1; message frame \x7b \x7d \x7d"

/-- Although the frame is well-formed and its payload is decoded, the command fails. -/
theorem frame_name_taken :
    parse? ["decode", "-i", "a.proto", "--type", "M", "--data", "d.bin",
      "--length-type", "uint32"] = some framedCommand ∧
    ∃ schema, loadSchema (framedFiles nestedSource) framedCommand = .ok schema ∧
      (Framing.prefixed .uint32).Opens [2, 8, 7] (.ok ([8, 7], 0)) ∧
      schema.decode "M" [8, 7] = .ok (.object "M" [("a", .int32 7)], 2) ∧
      run (framedFiles nestedSource) framedCommand =
        .error (ofWire (.duplicateType "M.frame")) := by
  have loaded : loadSchema (framedFiles nestedSource) framedCommand =
      .ok ⟨[⟨"M", .message ⟨[⟨"a", 1, .scalar .int32, .optional, false⟩], []⟩⟩,
        ⟨"M.frame", .message .empty⟩]⟩ :=
    Outcome.eq_ok_of_toOption (by decide +kernel)
  refine ⟨by decide +kernel, _, loaded, opens_framedFiles, rfl, ?_⟩
  rw [run, loaded]
  rfl

end CommandLine

end ProtoWire
