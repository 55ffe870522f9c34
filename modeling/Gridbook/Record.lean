/-
Gridbook/Record.lean

Records: the rows of a dataset with the numbers that place them, and pages of
records.  A page knows how many records match in all, and from that how many
pages there are.
-/
import Gridbook.Form

namespace Gridbook

/-- A row as a request sees it. -/
structure Record where
  id : Int
  owner : Int
  dataset : Int
  index : Int
  fields : Fields
deriving Repr

namespace Record

/-- Read a record from a form. -/
def ofCell (c : Cell) : Except Error Record := do
  let form ← Form.object c
  let id ← Form.required Form.whole form "id"
  let owner ← Form.required Form.whole form "owner_id"
  let dataset ← Form.required Form.whole form "dataset_id"
  let index ← Form.required Form.whole form "index"
  let fields ← Form.withDefault Form.object [] form "fields"
  return ⟨id, owner, dataset, index, fields⟩

/-- Does the record have a value in this column? -/
def has (r : Record) (column : String) : Bool :=
  r.fields.has column

/-- The cell of a column, or `default` if the record has no such column. -/
def get (r : Record) (column : String) (default : Cell) : Cell :=
  (r.fields.lookup column).getD default

/-- A record as one flat row; a field overrides the number of the same name. -/
def flat (r : Record) : Fields :=
  Named.ofPairs
    ([("id", Cell.number (.whole r.id)), ("datasetId", .number (.whole r.dataset)),
      ("rowIndex", .number (.whole r.index))] ++ r.fields)

end Record

/-- One page of the records that match. -/
structure Page where
  records : List Record
  total : Int
  page : Int
  limit : Int
deriving Repr

namespace Page

/-- How many pages of this size the records fill, the last one perhaps in part. -/
def totalPages (p : Page) : Int :=
  if p.limit = 0 then 0 else -(Int.fdiv (-p.total) p.limit)

def hasNext (p : Page) : Bool :=
  p.page * p.limit < p.total

def hasPrevious (p : Page) : Bool :=
  1 < p.page

end Page

end Gridbook
