import Switchboard.Decode
import Switchboard.Schema.Clean

namespace Switchboard

structure QueryOptions where
  get : Bool := false
  count : Bool := false
  orderBy : List String := []
  select : List String := []
  offset : Nat := 0
  /-- How many records to answer with at most; 0 is no limit. -/
  limit : Nat := 0
deriving DecidableEq

namespace QueryOptions

def layout : Decode.Layout QueryOptions where
  name := "QueryOptions"
  sparse := true
  fields := [
    ("get", fun o v => return { o with get := ← Decode.bool v }),
    ("count", fun o v => return { o with count := ← Decode.bool v }),
    ("order_by", fun o v => return { o with orderBy := ← Decode.list Decode.string v }),
    ("select", fun o v => return { o with select := ← Decode.list Decode.string v }),
    ("offset", fun o v => return { o with offset := ← Decode.word "usize" v }),
    ("limit", fun o v => return { o with limit := ← Decode.word "usize" v })]

def ofRecord (v : Json) : Decode.Result QueryOptions := Decode.record layout {} v

def ofJson (v : Json) : Decode.Result QueryOptions := if v.isNull then .ok {} else ofRecord v

def toJson (o : QueryOptions) : Json :=
  .ofFields [("get", .bool o.get), ("count", .bool o.count),
    ("order_by", .arr (o.orderBy.map .str)), ("select", .arr (o.select.map .str)),
    ("offset", .nat o.offset), ("limit", .nat o.limit)]

end QueryOptions

/-- The schema of filter lists, which are checked by the reader of filters alone. -/
def queryFiltersParam : Param :=
  (Param.list { name := "query-filters" } []).withDefault (.arr [])

def Validator.notNegative : Validator := .range (some Double.zero) none

def queryOptionsParam : Param :=
  .dict { name := "query-options" } [
    (Param.bool "get").withDefault (.bool false),
    (Param.bool "count").withDefault (.bool false),
    (Param.list { name := "order_by" } [.str "field"]).withDefault (.arr []),
    (Param.list { name := "select" } [.str "field"]).withDefault (.arr []),
    ((Param.int "offset").withDefault (.int 0)).withValidator .notNegative,
    ((Param.int "limit").withDefault (.int 0)).withValidator .notNegative] false

end Switchboard
