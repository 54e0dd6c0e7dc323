import VethPeer.Inventory.Query
import VethPeer.Session.Basic

/-! The inventory of the namespace that a session was opened in, as far as a query needs it. -/
namespace VethPeer.Session

/-- The links that a query can be about: one, or all. -/
def surveyLinks (s : Session) (q : Query) : Except (Stop Fault) (List Interface) × Session :=
  match q.index with
  | some index =>
    let (outcome, s) := s.link? index
    (outcome.map fun link => link.toList.map (·.interface), s)
  | none =>
    let (outcome, s) := s.links
    (outcome.map (·.map (·.interface)), s)

/-- The addresses of the query's family; those of other interfaces than the one asked for are
dropped, since the kernel need not do so. -/
def surveyAddresses (s : Session) (q : Query) :
    Except (Stop Fault) (List Assignment) × Session :=
  if q.isLinkOnly then (.ok [], s)
  else
    let index := q.index.map (·.toUInt32)
    let (outcome, s) := s.addresses q.family.code (index.getD 0)
    (outcome.map fun entries => (entries.filter fun e => index.all (· = e.index)).map (·.assignment), s)

/-- Links first, then addresses; after a failure nothing more is asked. -/
def survey (s : Session) (q : Query) : Except (Stop Fault) Inventory × Session :=
  match s.surveyLinks q with
  | (.error stop, s) => (.error stop, s)
  | (.ok interfaces, s) =>
    let (outcome, s) := s.surveyAddresses q
    (outcome.map fun assignments => ⟨interfaces, assignments⟩, s)

end VethPeer.Session
