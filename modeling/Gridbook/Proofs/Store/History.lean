/-
Gridbook/Proofs/Store/History.lean

What happens to a store.  An event is one of the four writes, asked for by
anyone with any ids, or the clock set to any time; `after` is the store that it
leaves, whether the write succeeds or not.  A store is reachable when some
events lead to it from the empty one.

Main statements: what an event can make of a store is told once (`Change`,
`change_after`), from what each write leaves when it succeeds; a transaction that
fails leaves the store as it was (`commit_error`).
-/
import Gridbook.Proofs.Outcome
import Gridbook.SavedColumns

namespace Gridbook

/-- What can happen to a store. -/
inductive Event where
  | ingest (owner : Ident) (name filename : Option String) (upload : Upload)
  | deleteDataset (owner dataset : Ident)
  | save (owner dataset : Ident) (name : Option String) (formula : Cell)
  | deleteSaved (owner column : Ident)
  | setClock (time : Nat)
deriving Repr

/-- Is it the write that saves this column?  The name is trimmed, and the text
is one that reads as a formula. -/
def Event.Saves (c : SavedColumn) : Event → Prop
  | .save owner dataset name formula =>
    owner = some c.owner ∧ dataset = some (c.dataset : Int) ∧
      c.name = Text.strip (name.getD "") ∧
      ∃ f, Formula.ofCell formula = .ok f ∧ f.expression = c.formula
  | _ => False

/-- Is it the write by which its owner deletes the dataset? -/
def Event.Deletes (d : Dataset) : Event → Prop
  | .deleteDataset owner dataset => owner = some d.owner ∧ dataset = some (d.id : Int)
  | _ => False

/-- Are these the fields that the rows of a table are stored with? -/
def Upload.Stores (u : Upload) (fields : List Fields) : Prop :=
  ∃ cells raw, u.cells = .ok cells ∧ u.fields cells = .ok raw ∧
    raw.mapM Cell.writtenMembers? = some fields

namespace Store

variable {s s' : Store}

/-! ### Histories -/

/-- The store after an event. -/
def after (s : Store) : Event → Store
  | .ingest owner name filename upload => (s.ingest owner name filename upload).2
  | .deleteDataset owner dataset => (s.deleteDataset owner dataset).2
  | .save owner dataset name formula => (s.save owner dataset name formula).2
  | .deleteSaved owner column => (s.deleteSaved owner column).2
  | .setClock time => { s with clock := time }

/-- The store after some events. -/
def run (s : Store) (events : List Event) : Store :=
  events.foldl after s

/-- Do some events lead to the store from the empty one? -/
def Reachable (s : Store) : Prop :=
  ∃ events, s = empty.run events

theorem Reachable.after (h : s.Reachable) (e : Event) : (s.after e).Reachable := by
  obtain ⟨events, rfl⟩ := h
  refine ⟨events ++ [e], ?_⟩
  rw [run, run, List.foldl_append]
  rfl

/-- What holds of the empty store and is kept by every event holds of every
reachable store. -/
theorem Reachable.induct {P : Store → Prop} (start : P empty)
    (step : ∀ s e, P s → P (s.after e)) (h : s.Reachable) : P s := by
  obtain ⟨events, rfl⟩ := h
  -- from any store on: the first event changes where the others start
  have hrun : ∀ (events : List Event) (s : Store), P s → P (s.run events) := by
    intro events
    induction events with
    | nil => exact fun s hs => hs
    | cons e events ih => exact fun s hs => ih (s.after e) (step s e hs)
  exact hrun events empty start

/-! ### Statements and transactions -/

theorem during_eq_ok {α : Type} {activity : Activity} {x : Except Failure α} {a : α} :
    during activity x = .ok a ↔ x = .ok a := by
  cases x with
  | ok b => simp [during]
  | error f => simp [during]

/-- A transaction that fails leaves the store as it was. -/
theorem commit_error {α : Type} {x : Except Error (α × Store)} {e : Error}
    (h : s.commit x = (.error e, s')) : s' = s := by
  rcases x with e' | ⟨a, t⟩
  · exact (congrArg Prod.snd h).symm
  · cases congrArg Prod.fst h

theorem commit_ok {α : Type} {x : Except Error (α × Store)} {a : α}
    (h : s.commit x = (.ok a, s')) : x = .ok (a, s') := by
  rcases x with e' | ⟨b, t⟩
  · cases congrArg Prod.fst h
  · cases h
    rfl

/-- The store after a transaction is the one that its statements give, or the
one before it. -/
theorem commit_snd {α : Type} (x : Except Error (α × Store)) :
    (s.commit x).2 = s ∨ ∃ a, s.commit x = (.ok a, (s.commit x).2) := by
  rcases x with e | ⟨a, t⟩
  · exact .inl rfl
  · exact .inr ⟨a, rfl⟩

theorem deleted_snd (what : Absent) (w : Written Bool) : (deleted what w).2 = w.2 := by
  rcases w with ⟨e | b, t⟩
  · rfl
  · cases b <;> rfl

theorem present_eq_ok {α : Type} {x : Option α} {a : α} : present x = .ok a ↔ x = some a := by
  cases x with
  | none => simp [present]
  | some b => simp [present]

theorem ofConversion_eq_ok {α : Type} {x : Except Cell.Fault α} {a : α} :
    Error.ofConversion x = .ok a ↔ x = .ok a := by
  cases x with
  | ok b => simp [Error.ofConversion]
  | error f => simp [Error.ofConversion]

theorem ofSyntax_eq_ok {α : Type} {x : Except Formula.SyntaxFault α} {a : α} :
    Error.ofSyntax x = .ok a ↔ x = .ok a := by
  cases x with
  | ok b => simp [Error.ofSyntax]
  | error f => simp [Error.ofSyntax]

theorem rowStatements_eq_ok {raw fields : List Fields} (h : s.rowStatements raw = .ok fields) :
    raw.mapM Cell.writtenMembers? = some fields := by
  unfold rowStatements at h
  dsimp only at h
  split at h
  · cases h
  · obtain ⟨written, hwritten, h⟩ := Outcome.bind_eq_ok.1 h
    have hsome := present_eq_ok.1 (during_eq_ok.1 hwritten)
    split at h
    · obtain ⟨_, -, h⟩ := Outcome.bind_eq_ok.1 h
      cases h
      exact hsome
    · cases h
      exact hsome

/-- A number that names one thing is that thing's number. -/
theorem names_iff {i : Ident} {n : Int} : i.names n = true ↔ i = some n := by
  rw [Ident.names, beq_iff_eq]

theorem ownedDataset_eq_ok {owner dataset : Ident} {d : Dataset}
    (h : s.ownedDataset owner dataset = .ok d) :
    d ∈ s.datasets ∧ dataset = some (d.id : Int) ∧ owner = some d.owner := by
  obtain ⟨found, hfound, h⟩ := Outcome.bind_eq_ok.1 h
  obtain ⟨_, -, hfind⟩ := Outcome.bind_eq_ok.1 (during_eq_ok.1 hfound)
  cases hfind
  split at h
  · next e he =>
    cases h
    have hnames := List.find?_some he
    rw [Bool.and_eq_true, names_iff, names_iff] at hnames
    exact ⟨List.mem_of_find?_eq_some he, hnames⟩
  · cases h

/-! ### What each write leaves -/

/-- A table that is stored becomes a dataset of its owner, with the next id, and
one row for each of the stored fields. -/
theorem ingest_eq_ok {owner : Ident} {name filename : Option String} {u : Upload} {d : Dataset}
    (h : s.ingest owner name filename u = (.ok d, s')) :
    owner = some d.owner ∧ d.id = nextId (s.datasets.map (·.id)) ∧
      ∃ fields, u.Stores fields ∧ s' = { s with
        datasets := s.datasets ++ [d]
        rows := s.rows ++ newRows d.owner d.id (nextId (s.rows.map (·.id))) (s.clock + 1) fields
        clock := s.clock + 1 + fields.length } := by
  have h := commit_ok h
  obtain ⟨cells, hcells, h⟩ := Outcome.bind_eq_ok.1 h
  obtain ⟨columns, hcolumns, h⟩ := Outcome.bind_eq_ok.1 h
  obtain ⟨_, -, h⟩ := Outcome.bind_eq_ok.1 h
  obtain ⟨o, ho, h⟩ := Outcome.bind_eq_ok.1 h
  obtain ⟨n, hn, h⟩ := Outcome.bind_eq_ok.1 h
  obtain ⟨raw, hraw, h⟩ := Outcome.bind_eq_ok.1 h
  obtain ⟨fields, hfields, h⟩ := Outcome.bind_eq_ok.1 h
  have howner : owner = some o := present_eq_ok.1 (during_eq_ok.1 ho)
  cases h
  refine ⟨howner, rfl, fields, ⟨cells, raw, ?_, ?_, rowStatements_eq_ok hfields⟩, rfl⟩
  · exact ofConversion_eq_ok.1 hcells
  · exact ofConversion_eq_ok.1 hraw

/-- The store with the datasets that are kept, and with what belongs to datasets
and owners that are. -/
def restrict (s : Store) (keep : Nat → Int → Bool) : Store :=
  { s with
    rows := s.rows.filter fun r => keep r.dataset r.owner
    saved := s.saved.filter fun c => keep c.dataset c.owner
    datasets := s.datasets.filter fun d => keep d.id d.owner }

/-- The store without an owner's dataset and all that belongs to both. -/
def without (s : Store) (owner dataset : Ident) : Store :=
  s.restrict fun d o => !(dataset.names d && owner.names o)

theorem deleteDataset_snd (s : Store) (owner dataset : Ident) :
    (s.deleteDataset owner dataset).2 = s ∨
      (s.deleteDataset owner dataset).2 = s.without owner dataset := by
  rw [deleteDataset, deleted_snd]
  rcases commit_snd (s.deleteStatements owner dataset) with h | ⟨b, h⟩
  · exact .inl h
  · refine .inr ?_
    have h := during_eq_ok.1 (commit_ok h)
    -- one statement for each of the three tables
    obtain ⟨_, -, h⟩ := Outcome.bind_eq_ok.1 h
    obtain ⟨_, -, h⟩ := Outcome.bind_eq_ok.1 h
    obtain ⟨_, -, h⟩ := Outcome.bind_eq_ok.1 h
    exact (congrArg Prod.snd (Except.ok.inj h)).symm

/-- A formula that is saved is kept under its trimmed name for a dataset of its
owner. -/
theorem save_eq_ok {owner dataset : Ident} {name : Option String} {formula : Cell}
    {c : SavedColumn} (h : s.save owner dataset name formula = (.ok c, s')) :
    (∃ d ∈ s.datasets, d.id = c.dataset ∧ d.owner = c.owner) ∧
      (Event.save owner dataset name formula).Saves c ∧ c.name ≠ "" ∧
      c.id = nextId (s.saved.map (·.id)) ∧
      s' = { s with saved := s.saved ++ [c], clock := s.clock + 1 } := by
  have h := commit_ok h
  obtain ⟨f, hf, h⟩ := Outcome.bind_eq_ok.1 h
  dsimp only at h
  split at h
  · cases h
  · next hname =>
    obtain ⟨d, hd, h⟩ := Outcome.bind_eq_ok.1 h
    obtain ⟨_, -, h⟩ := Outcome.bind_eq_ok.1 h
    obtain ⟨hmem, hdataset, howner⟩ := ownedDataset_eq_ok hd
    cases h
    refine ⟨⟨d, hmem, rfl, rfl⟩, ⟨howner, hdataset, rfl, f, ofSyntax_eq_ok.1 hf, rfl⟩, ?_, rfl, rfl⟩
    exact fun he => hname (String.isEmpty_iff.2 he)

/-- The store without an owner's saved column. -/
def withoutSaved (s : Store) (owner column : Ident) : Store :=
  { s with saved := s.saved.filter fun c => !(column.names c.id && owner.names c.owner) }

theorem deleteSaved_snd (s : Store) (owner column : Ident) :
    (s.deleteSaved owner column).2 = s ∨
      (s.deleteSaved owner column).2 = s.withoutSaved owner column := by
  rw [deleteSaved, deleted_snd]
  rcases commit_snd (s.deleteSavedStatement owner column) with h | ⟨b, h⟩
  · exact .inl h
  · refine .inr ?_
    have h := during_eq_ok.1 (commit_ok h)
    obtain ⟨_, -, h⟩ := Outcome.bind_eq_ok.1 h
    exact (congrArg Prod.snd (Except.ok.inj h)).symm

/-- What an event can make of a store: nothing at all, or the one thing that it
is there for. -/
inductive Change (s : Store) : Event → Store → Prop
  | nothing (e : Event) : Change s e s
  | ingested {name filename : Option String} {u : Upload} {d : Dataset} {fields : List Fields}
      (id : d.id = nextId (s.datasets.map (·.id))) (stores : u.Stores fields) :
      Change s (.ingest (some d.owner) name filename u) { s with
        datasets := s.datasets ++ [d]
        rows := s.rows ++ newRows d.owner d.id (nextId (s.rows.map (·.id))) (s.clock + 1) fields
        clock := s.clock + 1 + fields.length }
  | deleted (owner dataset : Ident) :
      Change s (.deleteDataset owner dataset) (s.without owner dataset)
  | saved {e : Event} {c : SavedColumn}
      (owned : ∃ d ∈ s.datasets, d.id = c.dataset ∧ d.owner = c.owner) (saves : e.Saves c)
      (name : c.name ≠ "") (id : c.id = nextId (s.saved.map (·.id))) :
      Change s e { s with saved := s.saved ++ [c], clock := s.clock + 1 }
  | savedDeleted (owner column : Ident) :
      Change s (.deleteSaved owner column) (s.withoutSaved owner column)
  | clockSet (time : Nat) : Change s (.setClock time) { s with clock := time }

theorem change_after (s : Store) (e : Event) : Change s e (s.after e) := by
  cases e with
  | ingest owner name filename u =>
    rcases commit_snd (s := s) (s.ingestStatements owner name filename u) with h | ⟨d, h⟩
    · exact (congrArg (Change s _) h).mpr (.nothing _)
    · obtain ⟨rfl, hid, fields, hstores, heq⟩ := ingest_eq_ok h
      exact (congrArg (Change s _) heq).mpr (.ingested hid hstores)
  | deleteDataset owner dataset =>
    rcases deleteDataset_snd s owner dataset with h | h
    · exact (congrArg (Change s _) h).mpr (.nothing _)
    · exact (congrArg (Change s _) h).mpr (.deleted owner dataset)
  | save owner dataset name formula =>
    rcases commit_snd (s := s) (s.saveStatements owner dataset name formula) with h | ⟨c, h⟩
    · exact (congrArg (Change s _) h).mpr (.nothing _)
    · obtain ⟨howned, hsaves, hname, hid, heq⟩ := save_eq_ok h
      exact (congrArg (Change s _) heq).mpr (.saved howned hsaves hname hid)
  | deleteSaved owner column =>
    rcases deleteSaved_snd s owner column with h | h
    · exact (congrArg (Change s _) h).mpr (.nothing _)
    · exact (congrArg (Change s _) h).mpr (.savedDeleted owner column)
  | setClock time => exact .clockSet time

end Store

end Gridbook
