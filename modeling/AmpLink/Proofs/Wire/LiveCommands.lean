import AmpLink.Proofs.Wire.Payload
import AmpLink.Proofs.Wire.Request
import Mathlib.Data.List.Induction

/-!
# What live commands are built of

A live command is built by steps that replace its path or its value. The path is that of the last step that was
not refused and the value that of the last step that sets one, whatever the other steps were, and the steps of
a path can be read again out of the bytes of a command (`LiveCommand.addressed`). The mark of a string is never
taken away again: it belongs to the last value as long as no other value is set after the length of a string,
and stays behind if one is (`LiveCommand.marked`).
-/

namespace AmpLink

/-! ## Levels -/

/-- The kind of node that a code stands for. -/
def LevelType.ofCode? (code : UInt8) : Option LevelType := all.find? (·.code = code)

theorem LevelType.ofCode?_code (l : LevelType) : ofCode? l.code = some l := by cases l <;> decide

theorem LevelType.ofCode?_zero : ofCode? 0 = none := by decide

namespace LiveCommand

variable {c : LiveCommand} {s : Step} {steps : List Step} {path path' : List PathStep}

/-! ## Paths -/

/-- The ten bytes of a path. -/
def pathField (path : List PathStep) : Vector UInt8 10 := Layout.takeBytes 10 (pathBytes path)

/-- Reads steps until there is no kind of node. -/
def readSteps : Bytes → List PathStep
  | position :: code :: rest =>
    match LevelType.ofCode? code with
    | some level => ⟨position, level⟩ :: readSteps rest
    | none => []
  | _ => []

/-- The steps of the path in the bytes of a command. -/
def readPath (data : Bytes) : List PathStep := readSteps ((data.drop 2).take 10)

theorem length_pathBytes (path : List PathStep) : (pathBytes path).length = 2 * path.length := by
  induction path with
  | nil => rfl
  | cons s path ih =>
    rw [pathBytes, List.flatMap_cons, List.length_append, ← pathBytes, ih, List.length_cons]
    exact Nat.add_comm ..

theorem toList_pathField (h : path.length ≤ maxSteps) :
    (pathField path).toList = pathBytes path ++ List.replicate (10 - 2 * path.length) 0 := by
  have hle : (pathBytes path).length ≤ 10 := by
    rw [length_pathBytes]
    exact Nat.mul_le_mul_left 2 h
  rw [pathField, Layout.toList_takeBytes_of_length_le hle, length_pathBytes]

/-- A level is never zero, so the zeros behind the last step are no step. -/
theorem readSteps_append_replicate (path : List PathStep) (k : Nat) :
    readSteps (pathBytes path ++ List.replicate k 0) = path := by
  induction path with
  | nil =>
    match k with
    | 0 | 1 => rfl
    | k + 2 =>
      change readSteps (0 :: 0 :: List.replicate k 0) = []
      rw [readSteps, LevelType.ofCode?_zero]
  | cons s path ih =>
    change readSteps (s.position :: s.level.code :: (pathBytes path ++ List.replicate k 0)) = _
    rw [readSteps, LevelType.ofCode?_code]
    exact congrArg (s :: ·) ih

theorem readPath_encode (c : LiveCommand) : readPath (layout.encode c) = readSteps c.path.toList := by
  rw [readPath, encode_eq, List.append_assoc]
  change readSteps ((c.path.toList ++ _).take 10) = _
  rw [List.take_left' Vector.length_toList]

theorem readSteps_pathField (h : path.length ≤ maxSteps) : readSteps (pathField path).toList = path := by
  rw [toList_pathField h]
  exact readSteps_append_replicate ..

theorem pathField_inj (h : path.length ≤ maxSteps) (h' : path'.length ≤ maxSteps) :
    pathField path = pathField path' ↔ path = path' := by
  constructor
  · intro heq
    rw [← readSteps_pathField h, heq, readSteps_pathField h']
  · exact congrArg pathField

theorem withPath_eq_ok (h : path.length ≤ maxSteps) :
    c.withPath path = .ok { c with path := pathField path } := if_neg (Nat.not_lt.mpr h)

theorem withPath_eq_error (h : maxSteps < path.length) :
    c.withPath path = .error (.pathTooLong path.length) := if_pos h

theorem withPath_eq_ok_iff {c' : LiveCommand} : c.withPath path = .ok c' ↔
    path.length ≤ maxSteps ∧ c' = { c with path := pathField path } := by
  rcases Nat.lt_or_ge maxSteps path.length with h | h
  · rw [withPath_eq_error h]
    exact iff_of_false nofun fun hle => Nat.not_lt.mpr hle.1 h
  · rw [withPath_eq_ok h, Except.ok.injEq, and_iff_right h, eq_comm]

theorem withPath_eq_error_iff {e : ProtocolError} : c.withPath path = .error e ↔
    maxSteps < path.length ∧ e = .pathTooLong path.length := by
  rcases Nat.lt_or_ge maxSteps path.length with h | h
  · rw [withPath_eq_error h, Except.error.injEq, and_iff_right h, eq_comm]
  · rw [withPath_eq_ok h]
    exact iff_of_false nofun fun hlt => Nat.not_lt.mpr h hlt.1

/-! ## Histories -/

/-- What a step makes of a command. A path that is refused leaves the command as it is. -/
def after (c : LiveCommand) (s : Step) : LiveCommand :=
  match c.build s with
  | .ok c' => c'
  | .error _ => c

/-- What the steps make of the empty command. -/
def built (steps : List Step) : LiveCommand := steps.foldl after empty

namespace Step

/-- The path of a step that replaces the path. -/
def path? : Step → Option (List PathStep)
  | .path path => if path.length ≤ maxSteps then some path else none
  | _ => none

/-- The value of a step that sets one. -/
def value? : Step → Option UInt32
  | .path _ => none
  | .gain db => some (db * .ofNat 10 + .ofNat 800).toUInt32
  | .switch on => some (if on then 1 else 0)
  | .eqType t => some t.code
  | .stringLength length => some (.ofNat length)

/-- Whether a step sets the value to the length of a string. -/
def isString : Step → Bool
  | .stringLength _ => true
  | _ => false

theorem length_le_of_path? (h : s.path? = some path) : path.length ≤ maxSteps := by
  cases s with
  | path path' =>
    rw [path?, Option.ite_none_right_eq_some, Option.some.injEq] at h
    obtain ⟨hle, rfl⟩ := h
    exact hle
  | gain | switch | eqType | stringLength => contradiction

end Step

theorem built_append_singleton (steps : List Step) (s : Step) :
    built (steps ++ [s]) = (built steps).after s := List.foldl_append ..

theorem after_path (h : path.length ≤ maxSteps) :
    c.after (.path path) = { c with path := pathField path } := by
  rw [after, build, withPath_eq_ok h]

theorem after_path_refused (h : maxSteps < path.length) : c.after (.path path) = c := by
  rw [after, build, withPath_eq_error h]

/-- A step does nothing but set the path, the value and the mark, each to something of its own. -/
theorem after_eq (c : LiveCommand) (s : Step) : c.after s =
    { crtFlags := if s.isString then 1 else c.crtFlags
      optFlags := c.optFlags
      path := (s.path?.map pathField).getD c.path
      value := s.value?.getD c.value } := by
  cases s with
  | path path =>
    rcases Nat.lt_or_ge maxSteps path.length with h | h
    · rw [after_path_refused h, Step.path?, if_neg (Nat.not_le.mpr h)]
      rfl
    · rw [after_path h, Step.path?, if_pos h]
      rfl
  | gain | switch | eqType | stringLength => rfl

/-- A field is what the last of the steps that say something about it says. -/
theorem foldl_after (get : Step → Option α) (field : LiveCommand → α)
    (h : ∀ c s, field (after c s) = (get s).getD (field c)) (steps : List Step) :
    field (built steps) = (steps.filterMap get).getLast?.getD (field empty) := by
  induction steps using List.reverseRecOn with
  | nil => rfl
  | append_singleton steps s ih =>
    rw [built_append_singleton, h, ih, List.filterMap_append]
    cases hs : get s with
    | none => simp [hs]
    | some a => simp [hs]

/-- The path of the last step that was not refused, empty without such a step. -/
def lastPath (steps : List Step) : List PathStep := (steps.filterMap Step.path?).getLast?.getD []

/-- The value of the last step that set one. -/
def lastValue (steps : List Step) : UInt32 := (steps.filterMap Step.value?).getLast?.getD 0

theorem length_lastPath (steps : List Step) : (lastPath steps).length ≤ maxSteps := by
  rw [lastPath]
  cases h : (steps.filterMap Step.path?).getLast? with
  | none => exact Nat.zero_le _
  | some path =>
    obtain ⟨s, -, hs⟩ := List.mem_filterMap.mp (List.mem_of_getLast? h)
    exact Step.length_le_of_path? hs

theorem path_built (steps : List Step) : (built steps).path = pathField (lastPath steps) := by
  have hlast := foldl_after (fun s => s.path?.map pathField) path (fun c s => by rw [after_eq]) steps
  have hmap : steps.filterMap (fun s => s.path?.map pathField) = (steps.filterMap Step.path?).map pathField :=
    List.map_filterMap.symm
  have hempty : empty.path = pathField [] := by decide
  rw [hlast, hmap, List.getLast?_map, hempty, Option.getD_map, lastPath]

theorem value_built (steps : List Step) : (built steps).value = lastValue steps :=
  foldl_after Step.value? value (fun c s => by rw [after_eq]) steps

theorem crtFlags_built (steps : List Step) :
    (built steps).crtFlags = if steps.any Step.isString then 1 else 0 := by
  induction steps using List.reverseRecOn with
  | nil => rfl
  | append_singleton steps s ih =>
    rw [built_append_singleton, after_eq, ih, List.any_append]
    cases hs : s.isString with
    | true => simp [hs]
    | false => simp [hs]

/-! ## Paths and values of a history -/

/-- What a history of steps makes of path and value, and what the next path makes of it. -/
structure Addressed (steps : List Step) : Prop where
  /-- Nothing is left of earlier paths, and the values in between change nothing. -/
  path_eq : (built steps).path.toList =
    pathBytes (lastPath steps) ++ List.replicate (10 - 2 * (lastPath steps).length) 0
  value_eq : (built steps).value = lastValue steps
  withPath_eq_ok_iff : ∀ path c, (built steps).withPath path = .ok c ↔
    path.length ≤ maxSteps ∧ c = { built steps with path := pathField path }
  withPath_eq_error_iff : ∀ path e, (built steps).withPath path = .error e ↔
    maxSteps < path.length ∧ e = .pathTooLong path.length
  /-- A path that is refused leaves the command as it was. -/
  built_refused : ∀ path, maxSteps < path.length → built (steps ++ [.path path]) = built steps
  length_encode : (layout.encode (built steps)).length = 16
  /-- The bytes of the command tell every step of the path and how many there are. -/
  readPath_encode : readPath (layout.encode (built steps)) = lastPath steps
  path_inj : ∀ steps', (built steps).path = (built steps').path ↔ lastPath steps = lastPath steps'

theorem addressed (steps : List Step) : Addressed steps where
  path_eq := by
    rw [path_built]
    exact toList_pathField (length_lastPath steps)
  value_eq := value_built steps
  withPath_eq_ok_iff _ _ := withPath_eq_ok_iff
  withPath_eq_error_iff _ _ := withPath_eq_error_iff
  built_refused path h := by
    rw [built_append_singleton]
    exact after_path_refused h
  length_encode := layout.length_encode _
  readPath_encode := by
    rw [readPath_encode, path_built]
    exact readSteps_pathField (length_lastPath steps)
  path_inj steps' := by
    rw [path_built, path_built]
    exact pathField_inj (length_lastPath steps) (length_lastPath steps')

/-! ## The mark of a string -/

/-- The last step that set the value set it to the length of a string. -/
def EndsInString (steps : List Step) : Prop :=
  ∃ s ∈ (steps.filter (·.value?.isSome)).getLast?, s.isString

theorem EndsInString.any (h : EndsInString steps) : steps.any Step.isString := by
  obtain ⟨s, hlast, hs⟩ := h
  have hmem := List.mem_of_getLast? hlast
  exact List.any_eq_true.mpr ⟨s, (List.mem_filter.mp hmem).1, hs⟩

/-- What the mark of a command says about the steps that have built it. -/
structure Marked (steps : List Step) : Prop where
  /-- The mark stays for good. -/
  crtFlags_eq : (built steps).crtFlags = if steps.any Step.isString then 1 else 0
  /-- The mark tells what the value is as long as no length of a string was replaced by another value. -/
  marks_iff : ((built steps).crtFlags = 1 ↔ EndsInString steps) ↔
    (steps.any Step.isString → EndsInString steps)
  /-- A receiver reads the command that was built, with its mark. -/
  decodeFrame_eq : ∀ sequence component,
    decodeFrame ((Request.live (built steps)).frame sequence component) =
      .ok ((Request.live (built steps)).header sequence component, .ok (.liveCmd (built steps)))

theorem crtFlags_eq_one_iff (steps : List Step) :
    (built steps).crtFlags = 1 ↔ steps.any Step.isString := by
  rw [crtFlags_built]
  cases steps.any Step.isString with
  | false | true => decide

theorem marked (steps : List Step) : Marked steps where
  crtFlags_eq := crtFlags_built steps
  marks_iff := by
    rw [crtFlags_eq_one_iff]
    constructor
    · intro h
      exact h.mp
    · intro h
      exact ⟨h, EndsInString.any⟩
  decodeFrame_eq _ _ := Request.decodeFrame_frame ..

/-- The length of a string and then a gain of -6 dB. -/
def replacedString : List Step := [.stringLength 5, .gain ⟨0xc0c00000⟩]

/-- The gain is sent with the mark of the string that it has replaced. -/
theorem crtFlags_replacedString :
    (built replacedString).crtFlags = 1 ∧ (built replacedString).value = 740 ∧
      ¬ EndsInString replacedString := by
  refine ⟨by decide, by decide +kernel, ?_⟩
  rintro ⟨s, hlast, hs⟩
  cases hlast
  contradiction

end LiveCommand
end AmpLink
