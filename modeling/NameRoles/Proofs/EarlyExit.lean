import NameRoles.Proofs.Walk

/-! Walks that stop early. What a walk enters is not seen from its outcome alone, so a walk is also
run with a state that keeps a record of the paths it is given. The record is a beginning of the list
of all paths and ends with the first path at which the walk fails, if there is one. -/

namespace NameRoles

namespace Path

variable {σ ε : Type} {enter : σ → Path → σ × Except ε Unit}

/-- `Passes enter state paths reached`: given the paths one after the other, `enter` fails at none
of them and takes the state from `state` to `reached`. -/
inductive Passes (enter : σ → Path → σ × Except ε Unit) : σ → List Path → σ → Prop
  | done (state : σ) : Passes enter state [] state
  | step {state next reached : σ} {path : Path} {paths : List Path}
      (henter : enter state path = (next, .ok ())) (hpasses : Passes enter next paths reached) :
      Passes enter state (path :: paths) reached

/-- `enter` together with a record of the paths that it has been given. -/
def recording (enter : σ → Path → σ × Except ε Unit) (recorded : σ × List Path) (path : Path) :
    (σ × List Path) × Except ε Unit :=
  (((enter recorded.1 path).1, recorded.2 ++ [path]), (enter recorded.1 path).2)

theorem recording_eq {state next : σ} {path : Path} {outcome : Except ε Unit}
    (entered : List Path) (henter : enter state path = (next, outcome)) :
    recording enter (state, entered) path = ((next, entered ++ [path]), outcome) := by
  rw [recording, henter]

theorem Passes.foldUntil_eq {state reached : σ} {paths : List Path}
    (hpasses : Passes enter state paths reached) :
    foldUntil enter state paths = (reached, .ok ()) := by
  induction hpasses with
  | done state => rfl
  | step henter _ ih => rw [foldUntil_cons_ok enter _ henter, ih]

/-- A record of paths that are passed holds all of them, in order. -/
theorem Passes.recording {state reached : σ} {paths : List Path}
    (hpasses : Passes enter state paths reached) (entered : List Path) :
    Passes (recording enter) (state, entered) paths (reached, entered ++ paths) := by
  induction hpasses generalizing entered with
  | done state =>
      rw [List.append_nil]
      exact .done _
  | step henter _ ih =>
      rw [List.append_cons]
      exact .step (recording_eq entered henter) (ih _)

/-- Behind paths that are passed, a fold ends with the first failure. -/
theorem Passes.foldUntil_error {state reached final : σ} {before : List Path} {path : Path}
    {error : ε} (hpasses : Passes enter state before reached) (after : List Path)
    (henter : enter reached path = (final, .error error)) :
    foldUntil enter state (before ++ path :: after) = (final, .error error) := by
  rw [foldUntil_append enter _ hpasses.foldUntil_eq, foldUntil_cons_error enter _ henter]

/-- A fold passes all paths, or it fails at one and has passed those before. -/
theorem passes_or_fails (enter : σ → Path → σ × Except ε Unit) (state : σ) (paths : List Path) :
    (∃ reached, Passes enter state paths reached) ∨
      ∃ before path after reached final error, paths = before ++ path :: after ∧
        Passes enter state before reached ∧ enter reached path = (final, .error error) := by
  induction paths generalizing state with
  | nil => exact Or.inl ⟨state, .done state⟩
  | cons path paths ih =>
      cases henter : enter state path with
      | mk next outcome =>
          cases outcome with
          | error error =>
              exact Or.inr ⟨[], path, paths, state, next, error, rfl, .done state, henter⟩
          | ok _ =>
              rcases ih next with ⟨reached, hpasses⟩ |
                ⟨before, failing, after, reached, final, error, rfl, hpasses, hfails⟩
              · exact Or.inl ⟨reached, .step henter hpasses⟩
              · exact Or.inr ⟨path :: before, failing, after, reached, final, error, rfl,
                  .step henter hpasses, hfails⟩

end Path

/-- A walk is a fold over the paths of the tree that ends with the first failure. It enters them
from the front, each with the state that the one before has left: all of them if it fails at none,
and otherwise up to the one at which it fails and nothing behind it. A walk that cannot fail is a
plain fold. -/
theorem Node.tryTraverse_earlyExit {σ ε : Type} (root : Node)
    (enter : σ → Path → σ × Except ε Unit) (state : σ) :
    root.tryTraverse enter state = Path.foldUntil enter state root.occurrences ∧
    (∃ entered rest final outcome, root.occurrences = entered ++ rest ∧
      root.tryTraverse enter state = (final, outcome) ∧
      root.tryTraverse (Path.recording enter) (state, []) = ((final, entered), outcome) ∧
      ((outcome = .ok () ∧ rest = [] ∧ Path.Passes enter state entered final) ∨
        ∃ before path reached error, entered = before ++ [path] ∧
          Path.Passes enter state before reached ∧ enter reached path = (final, .error error) ∧
          outcome = .error error)) ∧
    ∀ step : σ → Path → σ, root.traverse step state = root.occurrences.foldl step state := by
  refine ⟨tryTraverse_eq_foldUntil enter root state, ?_, ?_⟩
  · rcases Path.passes_or_fails enter state root.occurrences with ⟨final, hpasses⟩ |
      ⟨before, path, after, reached, final, error, heq, hpasses, hfails⟩
    · refine ⟨root.occurrences, [], final, .ok (), (List.append_nil _).symm, ?_, ?_,
        Or.inl ⟨rfl, rfl, hpasses⟩⟩
      · rw [tryTraverse_eq_foldUntil, hpasses.foldUntil_eq]
      · rw [tryTraverse_eq_foldUntil, (hpasses.recording []).foldUntil_eq, List.nil_append]
    · refine ⟨before ++ [path], after, final, .error error, ?_, ?_, ?_,
        Or.inr ⟨before, path, reached, error, rfl, hpasses, hfails, rfl⟩⟩
      · rw [heq, List.append_cons]
      · rw [tryTraverse_eq_foldUntil, heq, hpasses.foldUntil_error after hfails]
      · rw [tryTraverse_eq_foldUntil, heq, (hpasses.recording []).foldUntil_error after
          (Path.recording_eq _ hfails), List.nil_append]
  · intro step
    rw [traverse_eq_foldl, paths_eq_occurrences]

end NameRoles
