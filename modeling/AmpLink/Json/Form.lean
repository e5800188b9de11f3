import AmpLink.Json.Basic
import AmpLink.Layout

/-!
# JSON forms of values

A form says how values of a type are written as JSON and which JSON is read as which value. What is
written is read back; reading may accept more: a record may have its fields in any order and further
fields besides, or may be the list of its fields in order, and a named constant may also be an object
with that one name and `null`. A record is built from its fields and gets its laws from theirs.
-/

namespace AmpLink.Json

structure Form (α : Type) where
  write : α → Json
  read? : Json → Option α
  read?_write : ∀ a, read? (write a) = some a
  isPlain_write : ∀ a, (write a).isPlain = true

namespace Form

/-- Whole numbers below `limit`. -/
def number (limit : Nat) (out : α → Nat) (of : Nat → α) (of_out : ∀ a, of (out a) = a)
    (out_lt : ∀ a, out a < limit) : Form α where
  write a := .int (out a)
  read?
    | .int n => if 0 ≤ n ∧ n.toNat < limit then some (of n.toNat) else none
    | _ => none
  read?_write a := by simp [of_out, out_lt]
  isPlain_write _ := rfl

def byte : Form UInt8 :=
  number UInt8.size UInt8.toNat UInt8.ofNat (fun _ => UInt8.ofNat_toNat) UInt8.toNat_lt_size

def word16 : Form UInt16 :=
  number UInt16.size UInt16.toNat UInt16.ofNat (fun _ => UInt16.ofNat_toNat) UInt16.toNat_lt_size

def word32 : Form UInt32 :=
  number UInt32.size UInt32.toNat UInt32.ofNat (fun _ => UInt32.ofNat_toNat) UInt32.toNat_lt_size

def word64 : Form UInt64 :=
  number UInt64.size UInt64.toNat UInt64.ofNat (fun _ => UInt64.ofNat_toNat) UInt64.toNat_lt_size

def text : Form String where
  write := .str
  read?
    | .str s => some s
    | _ => none
  read?_write _ := rfl
  isPlain_write _ := rfl

private theorem arePlain_map (f : Form α) (as : List α) : arePlain (as.map f.write) = true := by
  induction as with
  | nil => rfl
  | cons a as ih => simp [arePlain, f.isPlain_write, ih]

private theorem mapM_read?_write (f : Form α) (as : List α) :
    (as.map f.write).mapM f.read? = some as := by
  induction as with
  | nil => rfl
  | cons a as ih => simp [f.read?_write, ih]

def list (f : Form α) : Form (List α) where
  write as := .arr (as.map f.write)
  read?
    | .arr items => items.mapM f.read?
    | _ => none
  read?_write as := f.mapM_read?_write as
  isPlain_write as := f.arePlain_map as

/-- A list of exactly `n` values. -/
def vector (n : Nat) (f : Form α) : Form (Vector α n) where
  write v := f.list.write v.toList
  read? j := do
    let as ← f.list.read? j
    if h : as.length = n then return ⟨as.toArray, by simpa using h⟩ else none
  read?_write v := by
    simp only [f.list.read?_write]
    simp [Vector.toList]
  isPlain_write v := f.list.isPlain_write _

/-- Named constants. -/
def enumeration (units : List α) (name : α → String)
    (find : ∀ a, units.find? (fun u => name u == name a) = some a) : Form α where
  write a := .str (name a)
  read?
    | .str s => units.find? fun u => name u == s
    | .obj [(s, .null)] => units.find? fun u => name u == s
    | _ => none
  read?_write := find
  isPlain_write _ := rfl

/-- Named constants, and one more form that carries a value under the name `tag`. -/
def variant (units : List α) (name : α → String) (tag : String) (carried : α → Option β)
    (carry : β → α) (f : Form β)
    (find : ∀ a, carried a = none → units.find? (fun u => name u == name a) = some a)
    (carry_carried : ∀ a b, carried a = some b → carry b = a) : Form α where
  write a := match carried a with
    | none => .str (name a)
    | some b => .obj [(tag, f.write b)]
  read?
    | .str s => units.find? fun u => name u == s
    | .obj [(s, j)] =>
      if s = tag then (f.read? j).map carry
      else match j with
        | .null => units.find? fun u => name u == s
        | _ => none
    | _ => none
  read?_write a := by
    cases h : carried a with
    | none => exact find a h
    | some b => simp [f.read?_write, carry_carried a b h]
  isPlain_write a := by
    cases h : carried a with
    | none => rfl
    | some b => simp [isPlain, havePlain, f.isPlain_write]

end Form

/-- The fields of a record, in order. -/
structure Fields (α : Type) where
  names : List String
  write : α → List Json
  read? : List Json → Option α
  length_write : ∀ a, (write a).length = names.length
  read?_write : ∀ a, read? (write a) = some a
  isPlain_write : ∀ a, ∀ j ∈ write a, j.isPlain = true

namespace Fields

def one (name : String) (f : Form α) : Fields α where
  names := [name]
  write a := [f.write a]
  read?
    | [j] => f.read? j
    | _ => none
  length_write _ := rfl
  read?_write := f.read?_write
  isPlain_write a j h := by simp_all [f.isPlain_write]

/-- The fields of `f`, then those of `g`. -/
def and (f : Fields α) (g : Fields β) : Fields (α × β) where
  names := f.names ++ g.names
  write v := f.write v.1 ++ g.write v.2
  read? js := do
    let a ← f.read? (js.take f.names.length)
    let b ← g.read? (js.drop f.names.length)
    return (a, b)
  length_write v := by simp [f.length_write, g.length_write]
  read?_write v := by
    rw [← f.length_write v.1, List.take_left, List.drop_left]
    simp [f.read?_write, g.read?_write]
  isPlain_write v j h := by
    rcases List.mem_append.1 h with h | h
    · exact f.isPlain_write _ _ h
    · exact g.isPlain_write _ _ h

end Fields

theorem field?_zip_cons_ne {n m : String} {j : Json} {fields} (h : m ≠ n) :
    field? ((m, j) :: fields) n = field? fields n := by simp [field?, h]

private theorem mapM_congr {f g : α → Option β} {as : List α} (h : ∀ a ∈ as, f a = g a) :
    as.mapM f = as.mapM g := by
  induction as with
  | nil => rfl
  | cons a as ih =>
    simp only [List.mapM_cons, h a (List.mem_cons_self ..), ih fun b hb => h b (List.mem_cons_of_mem _ hb)]

/-- The names of `names.zip js` look up `js`. -/
theorem mapM_field?_zip (names : List String) (js : List Json) (hn : names.Nodup)
    (hl : js.length = names.length) : names.mapM (field? (names.zip js)) = some js := by
  induction names generalizing js with
  | nil => cases js <;> simp_all
  | cons n ns ih =>
    obtain _ | ⟨j, js⟩ := js
    · simp at hl
    have hmem : ∀ p ∈ ns.zip js, p.1 ≠ n := fun p hp he =>
      (List.nodup_cons.1 hn).1 (he ▸ (List.of_mem_zip hp).1)
    have hhead : field? ((n, j) :: ns.zip js) n = some j := by
      have : (ns.zip js).filter (fun p => decide (p.1 = n)) = [] :=
        List.filter_eq_nil_iff.2 fun p hp => by simpa using hmem p hp
      simp [field?, this]
    have htail : ns.mapM (field? ((n, j) :: ns.zip js)) = ns.mapM (field? (ns.zip js)) := by
      have := (List.nodup_cons.1 hn).1
      exact mapM_congr fun m hm => field?_zip_cons_ne fun h => this (h ▸ hm)
    simp only [List.zip_cons_cons, List.mapM_cons, hhead, htail,
      ih js (List.nodup_cons.1 hn).2 (by simpa using hl)]
    rfl

private theorem havePlain_zip (names : List String) (js : List Json)
    (h : ∀ j ∈ js, j.isPlain = true) : havePlain (names.zip js) = true := by
  induction names generalizing js with
  | nil => rfl
  | cons n ns ih =>
    cases js with
    | nil => rfl
    | cons j js =>
      simp only [List.zip_cons_cons, havePlain, h j (List.mem_cons_self ..), Bool.true_and]
      exact ih js fun k hk => h k (List.mem_cons_of_mem _ hk)

/-- A record with the given fields: an object, or the list of its fields in order. Unknown fields are
passed over, missing and repeated ones are refused. -/
def Form.record (f : Fields α) (p : Packing α β) (nodup : f.names.Nodup) : Form β where
  write b := .obj (f.names.zip (f.write (p.unpack b)))
  read?
    | .obj fields => do
      let js ← f.names.mapM (field? fields)
      return p.pack (← f.read? js)
    | .arr items =>
      if items.length = f.names.length then (f.read? items).map p.pack else none
    | _ => none
  read?_write b := by
    simp only [mapM_field?_zip _ _ nodup (f.length_write _)]
    simp [f.read?_write, p.pack_unpack]
  isPlain_write b := havePlain_zip _ _ (f.isPlain_write _)

end AmpLink.Json
