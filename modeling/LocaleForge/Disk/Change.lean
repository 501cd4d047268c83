import LocaleForge.Disk.Basic

/-!
The difference between two trees: what to remove from the one and what to put into it to get the
other.
-/

namespace LocaleForge.Disk

/-- The steps from one tree to another. -/
structure Change where
  /-- Taken away, in the order of locations. -/
  removed : List (Location × Entry) := []
  /-- Written, in the order of locations, so that a directory comes before what lies in it. -/
  written : List (Location × Entry) := []
deriving DecidableEq

namespace Change

/-- Compares two sorted lists of entries. -/
def between : List (Location × Entry) → List (Location × Entry) → Change
  | [], after => ⟨[], after⟩
  | before, [] => ⟨before, []⟩
  | x :: before, y :: after =>
    if x = y then between before after
    else if x.1 < y.1 then
      let c := between before (y :: after)
      ⟨x :: c.removed, c.written⟩
    else if x.1 = y.1 then
      let c := between before after
      ⟨x :: c.removed, y :: c.written⟩
    else
      let c := between (x :: before) after
      ⟨c.removed, y :: c.written⟩
termination_by before after => before.length + after.length

theorem between_self (es : List (Location × Entry)) : between es es = {} := by
  induction es with
  | nil => simp [between]
  | cons x rest ih => simp [between, ih]

end Change

/-- The steps from this tree to another. -/
def changesTo (before after : Disk) : Change :=
  .between before.entries after.entries

theorem changesTo_self (d : Disk) : d.changesTo d = {} :=
  Change.between_self d.entries

end LocaleForge.Disk
