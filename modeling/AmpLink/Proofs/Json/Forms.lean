import AmpLink.Json.Schema
import AmpLink.Proofs.Json.Printing
import AmpLink.Proofs.Keyed

/-!
# Values as texts

What a form writes is read back (`Json.Form.faithful`), so writing again what was read from a text settles
after one step, whichever of the accepted texts it was. A record is accepted from more than its own text
(`Json.Form.lenient_record`): its fields may come in any order and among others, and the list of its values
stands for it too. The main statement is `Json.faithful_forms`.
-/

namespace AmpLink.Json

theorem arePlain_iff {js : List Json} : arePlain js ↔ ∀ j ∈ js, j.isPlain := by
  induction js with
  | nil => simp [arePlain]
  | cons j js ih => rw [arePlain, Bool.and_eq_true, ih, List.forall_mem_cons]

theorem havePlain_iff {fields : List (String × Json)} : havePlain fields ↔ ∀ p ∈ fields, p.2.isPlain := by
  induction fields with
  | nil => simp [havePlain]
  | cons p fields ih => rw [havePlain, Bool.and_eq_true, ih, List.forall_mem_cons]

theorem parse?_text {j : Json} (h : j.isPlain) : parse? j.text.toList = some j := by
  have hparse := parse?_print [] [] h (List.forall_mem_nil _) (List.forall_mem_nil _)
  rwa [List.nil_append, List.append_nil, ← String.toList_ofList (l := j.print)] at hparse

namespace Form

variable {f : Form α}

/-! ## Any form -/

/-- The texts of a form stand for its values. -/
structure Faithful (f : Form α) : Prop where
  /-- A value is read back from its text, with blanks around it or without. -/
  back : ∀ (a : α) (before after : String), (∀ c ∈ before.toList, isBlank c) →
    (∀ c ∈ after.toList, isBlank c) → f.ofText? (before ++ f.toText a ++ after) = some a
  /-- Whatever text a value was read from, it is read again from the text that is written for it, and what
  is written then is that text. -/
  settles : ∀ s a, f.ofText? s = some a →
    f.ofText? (f.toText a) = some a ∧ ∀ b, f.ofText? (f.toText a) = some b → f.toText b = f.toText a

theorem ofText?_toText (f : Form α) (a : α) : f.ofText? (f.toText a) = some a := by
  rw [ofText?, toText, parse?_text (f.isPlain_write a), Option.bind_some, f.read?_write]

theorem faithful (f : Form α) : f.Faithful where
  back a before after hb ha := by
    have htext : (before ++ f.toText a ++ after).toList =
        before.toList ++ (f.write a).print ++ after.toList := by
      rw [String.toList_append, String.toList_append, toText, Json.text, String.toList_ofList]
    rw [ofText?, htext, parse?_print _ _ (f.isPlain_write a) hb ha, Option.bind_some, f.read?_write]
  settles s a _ := by
    refine ⟨f.ofText?_toText a, fun b hb => ?_⟩
    rw [f.ofText?_toText, Option.some.injEq] at hb
    rw [hb]

/-! ## Records -/

/-- A form that writes objects is content with less: the values in order, or the fields in any order with
others among them. -/
structure Lenient (f : Form α) : Prop where
  writes : ∀ a, ∃ own, f.write a = .obj own
  list : ∀ a own, f.write a = .obj own → f.ofText? (arr (own.map (·.2))).text = some a
  object : ∀ a own more fields, f.write a = .obj own →
    (∀ p ∈ more, p.1 ∉ own.map (·.1) ∧ p.2.isPlain) → fields.Perm (own ++ more) →
    f.ofText? (obj fields).text = some a

/-- A field is found wherever it stands, if no other field has its name. -/
theorem field?_of_perm {own more fields : List (String × Json)} (hn : (own.map (·.1)).Nodup)
    (hmore : ∀ p ∈ more, p.1 ∉ own.map (·.1)) (hp : fields.Perm (own ++ more))
    (h : (n, j) ∈ own) : field? fields n = some j := by
  have hother : more.filter (·.1 = n) = [] := by
    refine List.filter_eq_nil_iff.mpr fun p hp hname => hmore p hp ?_
    exact List.mem_map.mpr ⟨_, h, (of_decide_eq_true hname).symm⟩
  have hperm := hp.filter (·.1 = n)
  rw [List.filter_append, filter_key_eq_singleton hn h, hother, List.append_nil] at hperm
  rw [field?, hperm.eq_singleton]

theorem mapM_field? {own fields : List (String × Json)}
    (h : ∀ n j, (n, j) ∈ own → field? fields n = some j) :
    (own.map (·.1)).mapM (field? fields) = some (own.map (·.2)) := by
  induction own with
  | nil => rfl
  | cons p own ih =>
    rw [List.map_cons, List.mapM_cons, h p.1 p.2 (List.mem_cons_self ..),
      ih fun n j hp => h n j (List.mem_cons_of_mem _ hp)]
    rfl

theorem lenient_record (f : Fields α) (p : Packing α β) (nodup : f.names.Nodup) :
    (Form.record f p nodup).Lenient := by
  have hwrite (b : β) (own : List (String × Json)) (h : (Form.record f p nodup).write b = .obj own) :
      own.map (·.1) = f.names ∧ own.map (·.2) = f.write (p.unpack b) ∧ ∀ q ∈ own, q.2.isPlain := by
    have hplain := (Form.record f p nodup).isPlain_write b
    rw [h] at hplain
    refine ⟨?_, ?_, havePlain_iff.mp hplain⟩ <;> cases h
    · exact List.map_fst_zip (Nat.le_of_eq (f.length_write _).symm)
    · exact List.map_snd_zip (Nat.le_of_eq (f.length_write _))
  have hread (b : β) : (f.read? (f.write (p.unpack b))).map p.pack = some b := by
    rw [f.read?_write, Option.map_some, p.pack_unpack]
  refine ⟨fun b => ⟨_, rfl⟩, fun b own h => ?_, fun b own more fields h hmore hperm => ?_⟩
  · obtain ⟨-, hvalues, hplain⟩ := hwrite b own h
    have hlist : (arr (own.map (·.2))).isPlain := arePlain_iff.mpr (List.forall_mem_map.mpr hplain)
    rw [ofText?, parse?_text hlist, Option.bind_some, hvalues]
    exact (if_pos (f.length_write _)).trans (hread b)
  · obtain ⟨hnames, hvalues, hplain⟩ := hwrite b own h
    have hobject : (obj fields).isPlain := havePlain_iff.mpr fun q hq =>
      (List.mem_append.mp (hperm.subset hq)).elim (hplain q) fun hq => (hmore q hq).2
    have hfields := mapM_field? fun n j =>
      field?_of_perm (hnames ▸ nodup) (fun q hq => (hmore q hq).1) hperm (n := n) (j := j)
    rw [hnames, hvalues] at hfields
    rw [ofText?, parse?_text hobject, Option.bind_some]
    change (f.names.mapM (field? fields)).bind (fun js => (f.read? js).bind fun a => some (p.pack a)) = some b
    rw [hfields, Option.bind_some, f.read?_write, Option.bind_some, p.pack_unpack]

end Form

theorem again_again (f : Form α) (h : reformat?.again s f = some t) : reformat?.again t f = some t := by
  obtain ⟨a, -, rfl⟩ := Option.map_eq_some_iff.mp h
  rw [reformat?.again, f.ofText?_toText, Option.map_some]

/-- A text that was written again stays as it is. -/
theorem reformat?_again (h : reformat? type s = some t) : reformat? type t = some t := by
  unfold reformat? at h ⊢
  split at h <;> first | exact again_again _ h | contradiction

/-- Every value of the types that have a form is read back from its text; every text that is accepted for one
of them leads to the same value and the same text again, and for a record its fields may come in any order
and among others, or as a list. -/
theorem faithful_forms :
    (MessageType.form.Faithful ∧ Status.form.Faithful ∧ Header.form.Faithful ∧
      PresetRecall.form.Faithful ∧ DeviceDataRequest.form.Faithful ∧ DeviceDataResponse.form.Faithful ∧
      MasterVolume.form.Faithful ∧ LiveCommand.form.Faithful ∧ LevelType.form.Faithful ∧
      EqType.form.Faithful ∧ ClientConfig.form.Faithful ∧ DiscoveryConfig.form.Faithful) ∧
    (Header.form.Lenient ∧ PresetRecall.form.Lenient ∧ DeviceDataRequest.form.Lenient ∧
      DeviceDataResponse.form.Lenient ∧ MasterVolume.form.Lenient ∧ LiveCommand.form.Lenient ∧
      ClientConfig.form.Lenient ∧ DiscoveryConfig.form.Lenient) ∧
    ∀ type s t, reformat? type s = some t → reformat? type t = some t := by
  refine ⟨⟨Form.faithful _, Form.faithful _, Form.faithful _, Form.faithful _, Form.faithful _,
    Form.faithful _, Form.faithful _, Form.faithful _, Form.faithful _, Form.faithful _, Form.faithful _,
    Form.faithful _⟩, ?_, fun _ _ _ => reformat?_again⟩
  exact ⟨Form.lenient_record .., Form.lenient_record .., Form.lenient_record .., Form.lenient_record ..,
    Form.lenient_record .., Form.lenient_record .., Form.lenient_record .., Form.lenient_record ..⟩

example : MasterVolume.form.ofText? " [7]\n" = some { gain := 7 } ∧
    MasterVolume.form.toText { gain := 7 } = "\x7b\"gain\":7\x7d" := by
  decide +kernel

end AmpLink.Json
