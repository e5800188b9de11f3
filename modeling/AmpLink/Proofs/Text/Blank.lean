import AmpLink.Text.Blank
import Mathlib.Data.List.Basic
import Mathlib.Data.List.TakeWhile

/-!
# Taking away white space

White space is taken away at the ends of a text only, and no more of it than stands there (`trimEnd_concat`,
`trim_padded`).
-/

namespace AmpLink

variable {cs ws : List Char} {c : Char}

/-- Nothing but white space. -/
def IsBlank (cs : List Char) : Prop := ∀ c ∈ cs, isWhiteSpace c

instance : DecidablePred IsBlank := fun _ => decidable_of_iff _ List.all_eq_true

theorem trimEnd_append (h : IsBlank ws) (cs : List Char) : trimEnd (cs ++ ws) = trimEnd cs := by
  rw [trimEnd, List.reverse_append, List.dropWhile_append_of_pos fun c hc => h c (List.mem_reverse.mp hc)]
  rfl

theorem trimEnd_concat (h : isWhiteSpace c = false) (cs : List Char) : trimEnd (cs ++ [c]) = cs ++ [c] := by
  rw [trimEnd, List.reverse_append]
  change (List.dropWhile isWhiteSpace (c :: cs.reverse)).reverse = cs ++ [c]
  rw [List.dropWhile_cons_of_neg (Bool.eq_false_iff.mp h), List.reverse_cons, List.reverse_reverse]

/-- A text without white space at its ends is what is left of it when white space is put around it. -/
theorem trim_padded {before after : List Char} (hbefore : IsBlank before) (hafter : IsBlank after)
    (hhead : ∀ c ∈ cs.head?, isWhiteSpace c = false) (hlast : ∀ c ∈ cs.getLast?, isWhiteSpace c = false) :
    trim (before ++ cs ++ after) = cs := by
  rw [trim, List.append_assoc, List.dropWhile_append_of_pos hbefore]
  rcases List.eq_nil_or_concat' cs with rfl | ⟨front, last, rfl⟩
  · rw [List.nil_append, List.dropWhile_eq_nil_iff.mpr hafter]
    rfl
  · have hdrop : (front ++ [last] ++ after).dropWhile isWhiteSpace = front ++ [last] ++ after := by
      cases front with
      | nil => exact List.dropWhile_cons_of_neg (Bool.eq_false_iff.mp (hhead last rfl))
      | cons first front => exact List.dropWhile_cons_of_neg (Bool.eq_false_iff.mp (hhead first rfl))
    rw [hdrop, trimEnd_append hafter, trimEnd_concat (hlast last List.getLast?_concat)]

theorem trim_of_isBlank (h : IsBlank cs) : trim cs = [] := by
  have htrim : trim (cs ++ [] ++ []) = [] := trim_padded h nofun nofun nofun
  rwa [List.append_nil, List.append_nil] at htrim

end AmpLink
