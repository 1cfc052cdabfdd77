import Mathlib.Data.List.Basic

/-!
# Replacing a file by renaming

A file that is never written in place. A new content goes to a temporary file, is synced there,
takes the old one's name, and the directory is synced. Until that last sync a power loss may bring
back any content the name had since the sync before. Every operation may fail with or without its
effect, and a failed write leaves any bytes in the temporary file.

Results:

* `perform_contents`: an operation adds at most the content being published to what may be found
  under the name;
* `perform_ready`: after the last operation nothing else may be found.
-/

namespace Replacement

variable {β : Type}

/-- What stands under the file's name, what a power loss may put there instead, and the temporary
file. -/
structure File (β : Type) where
  current : Option β := none
  older : List (Option β) := []
  temp : Option β := none

/-- The operation that comes next; `recheck` only in a replacement that must not overwrite. -/
inductive Stage where
  | openTemp
  | writeTemp
  | syncTemp
  | recheck
  | rename
  | syncDirectory
  | done
deriving DecidableEq

/-- How an operation ends: a failed one may have taken effect, and a failed write leaves something
in the temporary file. -/
inductive Result (β : Type) where
  | ok
  | failed (effect : Bool) (temp : Option β)

namespace Result

/-- The operation reports success. -/
def succeeds : Result β → Bool
  | ok => true
  | failed _ _ => false

/-- The operation changes the file. -/
def takesEffect : Result β → Bool
  | ok => true
  | failed effect _ => effect

end Result

namespace Stage

/-- The stage after a success. -/
def next (fresh : Bool) : Stage → Stage
  | openTemp => writeTemp
  | writeTemp => syncTemp
  | syncTemp => if fresh then recheck else rename
  | recheck => rename
  | rename => syncDirectory
  | syncDirectory => done
  | done => done

end Stage

namespace File

/-- Every content that may be found under the name. -/
def contents (file : File β) : List (Option β) := file.current :: file.older

/-- The temporary file takes the name. -/
def replace (file : File β) : File β where
  current := file.temp
  older := file.contents
  temp := none

/-- The directory is synced. -/
def sync (file : File β) : File β := { file with older := [] }

/-- A power loss: one of the contents is found, and anything in the temporary file. -/
def lose (file : File β) (choice : ℕ) (temp : Option β) : File β where
  current := file.contents.getD choice file.current
  older := []
  temp := temp

theorem contents_lose {file : File β} {choice : ℕ} {temp content : Option β}
    (h : content ∈ (file.lose choice temp).contents) : content ∈ file.contents := by
  obtain rfl : content = file.contents.getD choice file.current := by
    simpa [lose, contents] using h
  rw [List.getD_eq_getElem?_getD]
  cases hget : file.contents[choice]? with
  | none => exact List.mem_cons_self
  | some found => exact List.mem_of_getElem? hget

end File

/-- One operation of publishing `new`, and whether it succeeds. -/
def perform (new : β) (file : File β) : Stage → Result β → File β × Bool
  | .openTemp, result =>
    (match result with
      | .ok => { file with temp := none }
      | .failed _ temp => { file with temp := temp }, result.succeeds)
  | .writeTemp, result =>
    (match result with
      | .ok => { file with temp := some new }
      | .failed _ temp => { file with temp := temp }, result.succeeds)
  | .syncTemp, result => (file, result.succeeds)
  | .recheck, result => (file, result.succeeds && file.current.isNone)
  | .rename, result => (if result.takesEffect then file.replace else file, result.succeeds)
  | .syncDirectory, result => (if result.takesEffect then file.sync else file, result.succeeds)
  | .done, result => (file, result.succeeds)

/-- What the operations so far have brought about. -/
def Ready (new : β) (file : File β) : Stage → Prop
  | .openTemp => True
  | .writeTemp => True
  | .syncTemp => file.temp = some new
  | .recheck => file.temp = some new
  | .rename => file.temp = some new
  | .syncDirectory => file.current = some new
  | .done => file.contents = [some new]

variable {new : β} {file : File β} {stage : Stage} {content : Option β}

theorem perform_contents (h : Ready new file stage) (result : Result β)
    (hcontent : content ∈ (perform new file stage result).1.contents) :
    content ∈ file.contents ∨ content = some new := by
  cases stage with
  | openTemp | writeTemp => cases result <;> exact Or.inl hcontent
  | syncTemp | recheck | done => exact Or.inl hcontent
  | rename =>
    dsimp only [perform] at hcontent
    split at hcontent
    · rcases List.mem_cons.1 hcontent with hnew | hold
      · exact Or.inr (hnew.trans h)
      · exact Or.inl hold
    · exact Or.inl hcontent
  | syncDirectory =>
    dsimp only [perform] at hcontent
    split at hcontent
    · rw [File.contents, File.sync, List.mem_singleton] at hcontent
      exact Or.inl (hcontent ▸ List.mem_cons_self)
    · exact Or.inl hcontent

theorem perform_ready (h : Ready new file stage) {result : Result β}
    (hok : (perform new file stage result).2 = true) (fresh : Bool) :
    Ready new (perform new file stage result).1 (stage.next fresh) := by
  cases result with
  | failed effect temp => cases stage <;> simp [perform, Result.succeeds] at hok
  | ok =>
    cases stage with
    | openTemp => trivial
    | writeTemp => rfl
    | syncTemp => cases fresh <;> exact h
    | recheck => exact h
    | rename => exact h
    | syncDirectory => exact congrArg (fun current => [current]) h
    | done => exact h

end Replacement
