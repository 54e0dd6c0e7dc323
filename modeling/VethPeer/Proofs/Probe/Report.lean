import Mathlib
import VethPeer.Probe.Basic
import VethPeer.Proofs.Inventory.Targets
import VethPeer.Proofs.Session.Narrowing
import VethPeer.Proofs.Session.Serving
import VethPeer.Proofs.Text.Mending

/-! What a worker reports of a namespace whose kernel lists these interfaces and addresses. -/
namespace VethPeer

open Wire

variable {w : World} {candidate : UInt32} {e : Endpoint} {q : Query} {t : Target} {s : Session}
  {linkRows : List LinkRow} {addressRows : List AddressRow} {linkDs addressDs rest : List Delivery}

theorem Family.ofCode_eq_ofIp_iff (n : UInt8) (a : Ip) : ofCode n = ofIp a ↔ n = (ofIp a).code := by
  constructor
  · intro h
    rw [← h, code_ofCode]
  · rintro rfl
    cases a <;> rfl

/-- One of the rows gives the address to the interface. -/
def Wire.LinkRow.owns (l : LinkRow) (rows : List AddressRow) (a : Ip) : Bool :=
  rows.any fun r => r.index.toInt32 = l.index ∧ r.family = (Family.ofIp a).code ∧ r.primary = some a

/-- The report on a search that came to this row, or to none. -/
def Answer.ofRow? : Option LinkRow → Answer
  | some l => .found l.link
  | none => .absent

namespace Session

/-- The inventory that the rows are decoded to. -/
def listed (linkRows : List LinkRow) (addressRows : List AddressRow) : Inventory where
  interfaces := linkRows.map (·.entry.interface)
  assignments := addressRows.map (·.entry.assignment)

theorem surveyLinks_of_rows (hi : q.index = none) (hs : s.sendFault s.nextSeq = none)
    (hd : s.deliveries = linkDs ++ rest) (wf : ∀ r ∈ linkRows, r.WellFormed)
    (h : IsDump LinkRow.CarriedBy Kind.newLink s.nextSeq linkRows linkDs) :
    s.surveyLinks q = (.ok (linkRows.map (·.entry.interface)), s.after linksRequest rest) := by
  have hlinks := links_of_isDump hs hd (isDump_link_entries wf h)
  simp [surveyLinks, hi, hlinks, Except.map]

theorem surveyAddresses_of_rows (hl : q.isLinkOnly = false) (hi : q.index = none)
    (hs : s.sendFault s.nextSeq = none) (hd : s.deliveries = addressDs ++ rest)
    (wf : ∀ r ∈ addressRows, r.WellFormed)
    (h : IsDump AddressRow.CarriedBy Kind.newAddress s.nextSeq addressRows
      addressDs) :
    (s.surveyAddresses q).1 = .ok (addressRows.map (·.entry.assignment)) := by
  have haddresses := addresses_of_isDump hs hd (isDump_address_entries wf h) q.family.code 0
  simp [surveyAddresses, hl, hi, haddresses, Except.map]

theorem listed_owns (l : LinkRow) (a : Ip) :
    (listed linkRows addressRows).owns l.index a = l.owns addressRows a := by
  rw [Inventory.owns, listed, List.any_map, LinkRow.owns]
  congr 1
  funext r
  simp [AddressRow.entry, AddressEntry.assignment, AddressEntry.primary, AddressRow.primary,
    Family.ofCode_eq_ofIp_iff]

theorem survey_of_rows (hl : q.isLinkOnly = false) (hi : q.index = none)
    (hs : s.sendFault s.nextSeq = none) (hs' : s.sendFault (s.nextSeq + 1) = none)
    (hd : s.deliveries = linkDs ++ (addressDs ++ rest)) (wfLinks : ∀ r ∈ linkRows, r.WellFormed)
    (wfAddresses : ∀ r ∈ addressRows, r.WellFormed)
    (links : IsDump LinkRow.CarriedBy Kind.newLink s.nextSeq linkRows linkDs)
    (addresses : IsDump AddressRow.CarriedBy Kind.newAddress (s.nextSeq + 1) addressRows
      addressDs) :
    (s.survey q).1 = .ok (listed linkRows addressRows) := by
  have haddresses := surveyAddresses_of_rows (s := s.after linksRequest (addressDs ++ rest)) hl hi
    hs' rfl wfAddresses addresses
  rw [survey_of_links (surveyLinks_of_rows hi hs hd wfLinks links), haddresses]
  rfl

theorem survey_of_link_rows (hl : q.isLinkOnly = true) (hi : q.index = none)
    (hs : s.sendFault s.nextSeq = none) (hd : s.deliveries = linkDs ++ rest)
    (wfLinks : ∀ r ∈ linkRows, r.WellFormed)
    (links : IsDump LinkRow.CarriedBy Kind.newLink s.nextSeq linkRows linkDs) :
    (s.survey q).1 = .ok (listed linkRows []) := by
  rw [survey_of_links (surveyLinks_of_rows hi hs hd wfLinks links), surveyAddresses, hl]
  rfl

theorem listed_locate_ofAddress (a : Ip) :
    (listed linkRows addressRows).locate (.ofAddress a) =
      (linkRows.find? fun l => l.owns addressRows a).map fun l => ⟨l.index, l.link⟩ := by
  have howns : ((fun i : Interface => (listed linkRows addressRows).owns i.index a) ∘
      fun l : LinkRow => l.entry.interface) = fun l => l.owns addressRows a := by
    funext l
    exact listed_owns l a
  have hinterfaces : (listed linkRows addressRows).interfaces =
      linkRows.map (·.entry.interface) := rfl
  rw [Inventory.locate_ofAddress, hinterfaces, List.find?_map, howns, Option.map_map]
  rfl

theorem listed_locate_ofDevice {pattern : String} {glob : Glob}
    (h : Query.ofDevice pattern = .ok q) (hg : Glob.parse pattern = .ok glob) :
    (listed linkRows addressRows).locate q =
      (linkRows.find? fun l => glob.isMatch (Utf8.decodeLossy l.name)).map
        fun l => ⟨l.index, l.link⟩ := by
  have hinterfaces : (listed linkRows addressRows).interfaces =
      linkRows.map (·.entry.interface) := rfl
  rw [Inventory.locate_ofDevice _ h hg, hinterfaces, List.find?_map, Option.map_map]
  rfl

end Session
namespace Probe

theorem run_of_connect (hq : t.query = .ok q) (he : w.enter candidate = .ok e)
    (hc : e.connect = .ok s) : run w candidate t = (answer q (s.survey q).1).map (⟨candidate, ·⟩) := by
  simp [run, visit, survey, hq, he, hc]

/-- The socket of an endpoint that can be opened and bound has sent nothing yet. -/
theorem connect_of_opens (ho : e.openFault = none) (hb : e.bindFault = none) :
    ∃ s, e.connect = .ok s ∧ s.nextSeq = 1 ∧ s.sendFault = e.sendFault ∧
      s.deliveries = e.deliveries :=
  ⟨{ portId := e.portId, deliveries := e.deliveries, sendFault := e.sendFault },
    by simp [Endpoint.connect, ho, hb], rfl, rfl, rfl⟩

theorem answer_of_locate {p : LinkRow → Bool} {inv : Inventory}
    (h : inv.locate q = (linkRows.find? p).map fun l => ⟨l.index, l.link⟩) :
    answer q (.ok inv) = some (.ofRow? (linkRows.find? p)) := by
  rw [answer, h]
  cases linkRows.find? p <;> rfl

/-- A worker that can enter the namespace of its candidate reports, of the first interface listed
there that owns the address or has such a name, the other end, and otherwise that there is none. -/
theorem run_of_dumps (enters : w.enter candidate = .ok e) (opens : e.openFault = none)
    (binds : e.bindFault = none) (sends : e.sendFault 1 = none)
    (wfLinks : ∀ r ∈ linkRows, r.WellFormed)
    (linkDump : IsDump LinkRow.CarriedBy Kind.newLink 1 linkRows linkDs)
    (delivered : e.deliveries = linkDs ++ rest) :
    (∀ addressRows addressDs later, (∀ r ∈ addressRows, AddressRow.WellFormed r) →
      IsDump AddressRow.CarriedBy Kind.newAddress 2 addressRows addressDs →
      rest = addressDs ++ later → e.sendFault 2 = none →
      ∀ a, run w candidate (.address a) = some
        ⟨candidate, .ofRow? (linkRows.find? fun l => l.owns addressRows a)⟩) ∧
    ∀ pattern glob, Glob.parse pattern = .ok glob →
      run w candidate (.device pattern) = some
        ⟨candidate, .ofRow? (linkRows.find? fun l => glob.isMatch (Utf8.decodeLossy l.name))⟩ := by
  obtain ⟨s, hconnect, hseq, hs, hd⟩ := connect_of_opens opens binds
  rw [← hseq, ← hs] at sends
  rw [← hseq] at linkDump
  rw [← hd] at delivered
  constructor
  · intro addressRows addressDs later wfAddresses addressDump hrest again a
    have hagain : s.sendFault (s.nextSeq + 1) = none := by
      rw [hs, hseq]
      exact again
    have haddresses : IsDump AddressRow.CarriedBy Kind.newAddress (s.nextSeq + 1) addressRows
        addressDs := by
      rw [hseq]
      exact addressDump
    have hsurvey := Session.survey_of_rows (Query.ofAddress_isLinkOnly a) rfl sends hagain
      (hrest ▸ delivered) wfLinks wfAddresses linkDump haddresses
    rw [run_of_connect rfl enters hconnect, hsurvey,
      answer_of_locate (Session.listed_locate_ofAddress a)]
    rfl
  · intro pattern glob hglob
    have hquery := Query.ofDevice_eq hglob
    have htarget : (Target.device pattern).query = .ok { family := .packet, name := some glob } :=
      hquery
    have hsurvey := Session.survey_of_link_rows (q := { family := .packet, name := some glob }) rfl
      rfl sends delivered wfLinks linkDump
    rw [run_of_connect htarget enters hconnect, hsurvey,
      answer_of_locate (Session.listed_locate_ofDevice hquery hglob)]
    rfl

def vethLinkDump : List Delivery :=
  oneEach (dumpFrames Kind.newLink 1 (Rows.veth.links.map (·.payload)))

def vethAddressDump : List Delivery :=
  oneEach (dumpFrames Kind.newAddress 2 (Rows.veth.addresses.map (·.payload)))

def vethEndpoint : Endpoint := { deliveries := vethLinkDump ++ (vethAddressDump ++ []) }

def vethWorld : World := { processes := [{ pid := 42, endpoint := vethEndpoint }] }

/-- One address is an interface's own, the other is the far end of its link. -/
theorem run_of_dumps_vethWorld :
    run vethWorld 42 (.address (.v4 0x0A000002)) = some ⟨42, .found (some 9)⟩ ∧
    run vethWorld 42 (.address (.v4 0x0A000001)) = some ⟨42, .absent⟩ ∧
    run vethWorld 42 (.device "v*") = some ⟨42, .found (some 9)⟩ := by
  have wf := Rows.veth_wellFormed
  have linkDump : IsDump LinkRow.CarriedBy Kind.newLink 1 Rows.veth.links vethLinkDump :=
    isDump_dumpFrames (fun r _ => r.carriedBy_payload) fun r hr => (wf.links r hr).2
  have addressDump :
      IsDump AddressRow.CarriedBy Kind.newAddress 2 Rows.veth.addresses vethAddressDump :=
    isDump_dumpFrames (fun r _ => r.carriedBy_payload) fun r hr => (wf.addresses r hr).2
  have enters : vethWorld.enter 42 = .ok vethEndpoint := by rfl
  have hglob : Glob.parse "v*" = .ok ⟨"v*", [.literal 'v', .anyRun]⟩ := by rfl
  obtain ⟨haddress, hdevice⟩ := run_of_dumps enters rfl rfl rfl (fun r hr => (wf.links r hr).1)
    linkDump rfl
  have hrun := haddress _ _ [] (fun r hr => (wf.addresses r hr).1) addressDump rfl rfl
  refine ⟨(hrun _).trans rfl, (hrun _).trans rfl, (hdevice _ _ hglob).trans ?_⟩
  have hlo : Utf8.decodeLossy [108, 111] = "lo" := Utf8.decodeLossy_ascii (by simp)
  have hve : Utf8.decodeLossy [118, 101] = "ve" := Utf8.decodeLossy_ascii (by simp)
  have hmisses : Glob.isMatch ⟨"v*", [.literal 'v', .anyRun]⟩ "lo" = false := by rfl
  have hmatches : Glob.isMatch ⟨"v*", [.literal 'v', .anyRun]⟩ "ve" = true := by rfl
  simp [Rows.veth, hlo, hve, hmisses, hmatches, Answer.ofRow?]

end Probe
end VethPeer
