import AmpLink.Proofs.Client.Commands
import AmpLink.Session.Plan

/-!
# The clients of the devices that are named

Every named device gets one client, at the place of its address (`FanOut.leaf?_ofAddresses`). As long as
nobody else comes in, each of them hears exactly what the group is told (`FanOut.heard_ofAddresses`).
-/

namespace AmpLink.FanOut

variable {f f₀ : FanOut} {addresses : List SocketAddress} {actions : List Action} {k id : Nat}

/-- The clients of addresses, the first of them being number `k`. -/
def targets (k : Nat) (addresses : List SocketAddress) : List ClientTree :=
  (addresses.zipIdx k).map fun (a, i) => .leaf i (clientName a) []

theorem tree_of_foldlM (members : List ClientTree) (h₀ : f₀.tree = .group members none)
    (h : (addresses.zipIdx k).foldlM (fun f (a, i) => f.add [] (.leaf i (clientName a) [])) f₀ = .ok f) :
    f.delivered = f₀.delivered ∧ f.tree = .group (members ++ targets k addresses) none := by
  induction addresses generalizing k f₀ members with
  | nil =>
    cases h
    exact ⟨rfl, by rw [h₀]; simp [targets]⟩
  | cons a rest ih =>
    rw [List.zipIdx_cons, List.foldlM_cons] at h
    dsimp only at h
    cases hadd : f₀.add [] (.leaf k (clientName a) []) with
    | error e =>
      rw [hadd] at h
      contradiction
    | ok f' =>
      rw [hadd] at h
      have hstarted : f₀.tree.isStarted = false := by rw [h₀]; rfl
      rw [add_group h₀, hstarted, if_neg Bool.false_ne_true] at hadd
      split at hadd
      · contradiction
      · cases hadd
        obtain ⟨hdelivered, htree⟩ := ih _ rfl h
        refine ⟨hdelivered, htree.trans ?_⟩
        rw [List.append_assoc]
        rfl

theorem leaf?_ofAddresses (h : ofAddresses addresses = .ok f) (p : List Nat) (id : Nat) :
    f.tree.leaf? p = some id ↔ p = [id] ∧ id < addresses.length := by
  obtain ⟨-, htree⟩ := tree_of_foldlM [] rfl h
  rw [htree, List.nil_append]
  match p with
  | [] => simp [ClientTree.leaf?]
  | i :: q =>
    rw [ClientTree.leaf?, targets, List.getElem?_map, List.getElem?_zipIdx]
    cases ha : addresses[i]? with
    | none =>
      have hlen := List.getElem?_eq_none_iff.mp ha
      simp
      omega
    | some a =>
      have hlen := (List.getElem?_eq_some_iff.mp ha).1
      cases q with
      | nil => simp [ClientTree.leaf?]; omega
      | cons j q => simp [ClientTree.leaf?]

theorem heard_ofAddresses (h : ofAddresses addresses = .ok f)
    (ha : ∀ place new, .add place new ∉ actions) (hid : id < addresses.length) :
    (f.steps actions).heard id = commands actions := by
  have hleaf := leaf?_ofAddresses h
  have hplaces : f.tree.placesOf id = [[id]] := by
    refine List.Perm.eq_singleton ((List.perm_ext_iff_of_nodup (ClientTree.nodup_placesOf ..)
      (List.nodup_singleton _)).mpr fun p => ?_)
    rw [ClientTree.mem_placesOf, hleaf, List.mem_singleton]
    exact and_iff_left hid
  have hsettled (p : List Nat) (hp : (f.steps actions).tree.leaf? p = some id) :
      f.tree.leaf? p = some id := by
    refine (came_of_steps hp).resolve_right ?_
    rintro ⟨before, place, new, after, -, -, rfl, -⟩
    exact ha place new (by simp)
  have hdelivered : f.delivered = [] := (tree_of_foldlM [] rfl h).1
  rw [heard_of_settled f actions hsettled, hplaces, heard, hdelivered]
  exact List.flatMap_singleton' _

end AmpLink.FanOut
