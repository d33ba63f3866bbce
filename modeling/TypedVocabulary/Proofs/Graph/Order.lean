import Mathlib.Data.List.Nodup
import Mathlib.Data.List.Perm.Basic
import TypedVocabulary.Graph.Linearization
import TypedVocabulary.Proofs.Graph.Reachability

/-!
# The order of classes

Placing classes neither loses nor repeats one:

* `placeAll_perm`              what is placed and what is left over are the queue and the waiting
                               classes;
* `Graph.linearize_perm`       the order is a permutation of the declared classes;
* `Graph.isSome_position?`     exactly the declared classes have a place in it;
* `Graph.position?_eq_some_iff`   a class stands where its place says.
-/

namespace TypedVocabulary

namespace Waiting

theorem map_name_noteAll (placed : String) (ws : List Waiting) :
    (noteAll placed ws).map name = ws.map name := by
  unfold noteAll
  rw [List.map_map]
  rfl

/-- a waiting class is ready or it is not -/
theorem readyNames_append_perm (ws : List Waiting) :
    (readyNames ws ++ (notReady ws).map name).Perm (ws.map name) := by
  unfold readyNames notReady
  rw [← List.map_append]
  exact (List.filter_append_perm isReady ws).map name

end Waiting

/-- **Placing loses and repeats nothing.** -/
theorem placeAll_perm (queue : List String) (waiting : List Waiting) :
    ((placeAll queue waiting).1 ++ (placeAll queue waiting).2.map Waiting.name).Perm
      (queue ++ waiting.map Waiting.name) := by
  induction queue, waiting using placeAll.induct with
  | case1 waiting => simp [placeAll]
  | case2 name queue waiting noted ih =>
    have hn : (Waiting.readyNames noted ++ (Waiting.notReady noted).map Waiting.name).Perm
        (waiting.map Waiting.name) := by
      rw [← Waiting.map_name_noteAll name waiting]
      exact Waiting.readyNames_append_perm noted
    rw [placeAll]
    rw [List.append_assoc] at ih
    exact (ih.trans (hn.append_left queue)).cons name

namespace Graph

theorem map_name_waitingList (g : Graph) : g.waitingList.map Waiting.name = g.classes.keys := by
  unfold waitingList
  rw [List.map_map]
  exact List.map_id _

/-- **The order holds every declared class once.** -/
theorem linearize_perm (g : Graph) : g.linearize.order.Perm g.classes.keys := by
  have h := placeAll_perm (Waiting.readyNames g.waitingList) (Waiting.notReady g.waitingList)
  rw [← map_name_waitingList]
  exact h.trans (Waiting.readyNames_append_perm g.waitingList)

theorem linearize_nodup (g : Graph) : g.linearize.order.Nodup :=
  g.linearize_perm.nodup_iff.mpr g.classes.keys_nodup

theorem mem_linearize {g : Graph} {c : String} : c ∈ g.linearize.order ↔ g.isClass c = true :=
  g.linearize_perm.mem_iff.trans isClass_iff.symm

/-- exactly the declared classes have a place -/
theorem isSome_position? {g : Graph} {c : String} :
    (g.linearize.position? c).isSome = g.isClass c := by
  unfold Linearization.position?
  rw [Bool.eq_iff_iff, List.isSome_idxOf?, mem_linearize]

/-- a class stands where its place says, and nowhere else -/
theorem position?_eq_some_iff {g : Graph} {c : String} {i : Nat} :
    g.linearize.position? c = some i ↔ g.linearize.order[i]? = some c := by
  unfold Linearization.position?
  rw [List.idxOf?_eq_some_iff, List.getElem?_eq_some_iff]
  constructor
  · rintro ⟨hi, hc, _⟩
    exact ⟨hi, hc⟩
  · rintro ⟨hi, hc⟩
    refine ⟨hi, hc, fun j hj e => ?_⟩
    have hji : j = i := g.linearize_nodup.getElem_inj_iff.mp (e.trans hc.symm)
    omega

end Graph

end TypedVocabulary
