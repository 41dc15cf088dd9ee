import SymbolCache.Files.Action

/-! Running steps that may fail, one after the other. What holds of the parts of a sequence holds of
the whole. -/

namespace SymbolCache

section Sequence

variable {σ ε α β : Type}

theorem bind_apply (action : ExceptT ε (StateM σ) α) (next : α → ExceptT ε (StateM σ) β) (state : σ) :
    (action >>= next) state = match action state with
      | (.ok value, after) => next value after
      | (.error cause, after) => (.error cause, after) := by
  simp only [bind, ExceptT.bind, ExceptT.mk, ExceptT.bindCont, StateT.bind]
  rcases action state with ⟨_ | _, _⟩ <;> rfl

theorem bind_eq_ok_iff {action : ExceptT ε (StateM σ) α} {next : α → ExceptT ε (StateM σ) β} {state final : σ}
    {result : β} : (action >>= next) state = (.ok result, final) ↔
      ∃ value middle, action state = (.ok value, middle) ∧ next value middle = (.ok result, final) := by
  rw [bind_apply]
  rcases action state with ⟨cause | value, middle⟩
  · constructor
    · nofun
    · rintro ⟨_, _, failed, -⟩
      cases failed
  · constructor
    · intro continued
      exact ⟨value, middle, rfl, continued⟩
    · rintro ⟨_, _, same, continued⟩
      cases same
      exact continued

end Sequence

namespace FileAction

variable {ε : Type}

theorem change_eq_ok_iff {wrap : FileError → ε} {operation : FileTree → Except FileError FileTree}
    {space after : Workspace} : (change wrap operation : FileAction ε Unit) space = (.ok (), after) ↔
      operation space.tree = .ok after.tree ∧ after.log = space.log := by
  unfold change
  cases operation space.tree with
  | error cause => exact iff_of_false nofun nofun
  | ok tree =>
    constructor
    · intro done
      cases done
      exact ⟨rfl, rfl⟩
    · rintro ⟨changed, logged⟩
      cases after
      cases changed
      cases logged
      rfl

theorem makeDirs_eq_ok_iff {wrap : FileError → ε} {path : Path} {space after : Workspace} :
    (makeDirs wrap path : FileAction ε Unit) space = (.ok (), after) ↔
      space.tree.makeDirs path = .ok after.tree ∧ after.log = space.log := by
  rw [← @change_eq_ok_iff ε wrap fun tree => tree.makeDirs path]
  unfold makeDirs change
  dsimp only
  cases space.tree.makeDirs path with
  | error cause => exact iff_of_false nofun nofun
  | ok tree => rfl

end FileAction

end SymbolCache
