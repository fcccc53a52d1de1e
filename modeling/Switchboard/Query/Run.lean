import Switchboard.Error
import Switchboard.Query.Filter
import Switchboard.Query.Options

namespace Switchboard

def QueryError.toCallError (e : QueryError) : CallError := .invalidFilter e.message

namespace QueryOptions

def project (o : QueryOptions) (record : Json) : Json :=
  if o.select.isEmpty then record else selectFields record o.select

def sort (o : QueryOptions) (records : List Json) : List Json :=
  if o.orderBy.isEmpty then records else sortRecords (o.orderBy.map SortKey.ofText) records

def page (o : QueryOptions) (records : List Json) : List Json :=
  let rest := records.drop o.offset
  if o.limit = 0 then rest else rest.take o.limit

def answer (o : QueryOptions) (records : List Json) : Except CallError Json :=
  if o.count then .ok (.nat records.length)
  else if o.get then
    match records with
    | [] => .error .matchNotFound
    | [record] => .ok (o.project record)
    | _ => .error (.tooManyMatches records.length)
  else .ok (.arr (o.page ((o.sort records).map o.project)))

end QueryOptions

def matchingRecords (filters : List Filter) (records : List Json) : List Json :=
  records.filter fun record => Filter.holdsAll filters record

/-- Runs a query; all filters are read before any record is looked at. -/
def queryRecords [PatternReader] (records filters : List Json) (options : QueryOptions) :
    Except CallError Json :=
  match Filter.listOfJson filters with
  | .error e => .error e.toCallError
  | .ok filters => options.answer (matchingRecords filters records)

def queryOptionsOf (v : Json) : Except CallError QueryOptions :=
  match QueryOptions.ofJson v with
  | .ok o => .ok o
  | .error e => .error (QueryError.badOptions e).toCallError

end Switchboard
