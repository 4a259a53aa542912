/-
  SignOff/Audit/Trail.lean
  ========================
  **Where entries go.**  A trail takes entries one at a time, has a state that they change,
  and says of each whether it was kept.  There is a trail that keeps nothing, one that fails
  on every entry, one that keeps them in memory, and two that write to a journal: with one
  writer for all entries, or with one for each.
-/
import SignOff.Audit.Writer

namespace SignOff.Audit

/-- What becomes of an entry and of the trail's state: whether the entry was kept, and the
    state afterwards. -/
structure Trail (σ : Type) where
  write : Entry → σ → Bool × σ

namespace Trail

def silent : Trail Unit := ⟨fun _ s => (true, s)⟩

def broken : Trail Unit := ⟨fun _ s => (false, s)⟩

def recorder : Trail (List Entry) := ⟨fun e s => (true, s ++ [e])⟩

def ofWriter : Trail (Writer × Files) :=
  ⟨fun e (w, files) =>
    match w.log e files with
    | (.ok (), w, files) => (true, w, files)
    | (.error _, w, files) => (false, w, files)⟩

def ofJournal (j : Journal) : Trail Files :=
  ⟨fun e files =>
    match j.write e files with
    | .ok files => (true, files)
    | .error _ => (false, files)⟩

end Trail

end SignOff.Audit
