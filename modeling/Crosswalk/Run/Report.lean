import Crosswalk.Run.State

/-!
# Reports

What a run leaves behind: the graph, the associations, the diagnostics and the counts. A run is
complete if nothing was dropped.
-/

namespace Crosswalk

structure Report where
  graph : Rdf.Graph
  diagnostics : List Diagnostic
  associations : AssociationTable
  counters : Counters
  joinIndexes : Nat

namespace Report

def ofState (s : RunState) : Report :=
  ⟨s.graph, s.diagnostics, s.associations, s.counters, s.joins.builds⟩

def isComplete (r : Report) : Bool :=
  r.diagnostics.isEmpty

end Report

namespace Diagnostic

def toJson (d : Diagnostic) : Json :=
  .object [("mapping", .number d.place.mapping),
    ("link", (d.place.link?.map Json.number).getD .null),
    ("xpath", .string d.path), ("message", .string d.cause.message)]

def line (d : Diagnostic) : String :=
  let link := (d.place.link?.map fun i => " link " ++ toString i).getD ""
  "mapping " ++ toString d.place.mapping ++ link ++ " at " ++ d.path ++ ": " ++ d.cause.message

end Diagnostic

def Report.toJson (r : Report) : Json :=
  .object [("triples", .number r.graph.size),
    ("stats", .object [
      ("domains_matched", .number r.counters.domainsMatched),
      ("domains_filtered", .number r.counters.domainsFiltered),
      ("domains_failed", .number r.counters.domainsFailed),
      ("links_attempted", .number r.counters.linksAttempted),
      ("ranges_linked", .number r.counters.rangesLinked),
      ("range_maps_built", .number r.joinIndexes)]),
    ("diagnostics", .array (r.diagnostics.map Diagnostic.toJson))]

end Crosswalk
