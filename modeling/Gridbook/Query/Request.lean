/-
Gridbook/Query/Request.lean

What a caller asks of the rows: a page, an order, and filters.  An order is
asked for by a column and the word for its direction, in any case; two names of
columns stand for the order of the rows' places.
-/
import Gridbook.Filter
import Gridbook.Store.Read

namespace Gridbook

/-- The number of rows on a page where nothing else is said. -/
def defaultPageSize : Int := 100

/-- The largest number of rows that a search or a list gives at once. -/
def largestPageSize : Int := 1000

/-- A request for rows. -/
structure RowRequest where
  page : Int
  limit : Int
  sortBy : Option String
  sortOrder : String
  filters : List Filter
deriving Repr

/-- Read a request from a form. -/
def RowRequest.ofFields (form : Fields) : Except Error RowRequest := do
  let page ← Form.withDefault Form.whole 1 form "page"
  let limit ← Form.withDefault Form.whole defaultPageSize form "limit"
  let sortBy ← Form.optional Form.text form "sort_by"
  let sortOrder ← Form.withDefault Form.text "asc" form "sort_order"
  let filters ← Form.withDefault Filter.listOfCell [] form "filters"
  return { page, limit, sortBy, sortOrder, filters }

/-- An order as it is asked for: a column, and the word for its direction. -/
structure Sorting where
  column : Option String
  direction : Option String
deriving Repr, DecidableEq

/-- The names that stand for the order of the rows' places. -/
def placeKeys : List String := ["row_index", "index"]

namespace Sorting

/-- The word for the direction, as it is compared. -/
def word (o : Sorting) : String :=
  String.ofList (((Form.given o.direction).getD "asc").toList.map Char.toLower)

/-- The order that is meant, if the direction is one of the two. -/
def check (o : Sorting) : Except Error Order :=
  let column := o.column.filter (· ∉ placeKeys)
  if o.word = "asc" then .ok ⟨column, false⟩
  else if o.word = "desc" then .ok ⟨column, true⟩
  else .error (.problem (.badSortOrder (o.direction.getD "None")))

/-- The order that is meant where one may be asked for. -/
def order (sort : Option Sorting) : Except Error Order :=
  match sort with
  | some o => o.check
  | none => .ok ⟨none, false⟩

end Sorting

end Gridbook
