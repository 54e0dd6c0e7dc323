import Mathlib
import VethPeer.Proofs.Session.Troubles

/-! The first delivery with something for a request settles the request, and what is left. -/
namespace VethPeer

open Wire

variable {seq : UInt32} {operation : String} {i : Item} {is : List Item} {fs : List Frame}
  {f : Frame} {d : Delivery} {before ds rest : List Delivery} {b : Bytes}
  {outcome : Except (Stop Fault) (List Bytes)} {fault : Fault} {s : Session}

namespace Item

/-- What the item denies the request `seq` with, which is not for a table. -/
def denial? (seq : UInt32) (operation : String) : Item → Option (Stop Fault)
  | .message f =>
    if f.header.seq = seq ∧ f.header.kind = .error then
      if f.payload.length < 20 then some (.fault (.truncated 20 f.payload.length))
      else if errorCode f = 0 then none
      else some (.ofRefusal operation (errorCode f))
    else none
  | .malformed fault => some (.fault fault)
  | .failure errno => some (.fault (.io errno))

/-- What the item adds to the reply to the request `seq`. -/
def answer? (seq : UInt32) : Item → Option Bytes
  | .message f => if f.header.seq = seq ∧ f.header.kind ≠ .error then some f.payload else none
  | _ => none

end Item

/-- How items that come together settle a request: by the first of them that denies it, or else by
all that they answer. -/
inductive Settles (seq : UInt32) (operation : String) (is : List Item) :
    Except (Stop Fault) (List Bytes) → Prop
  | denied {before after : List Item} {last : Item} {why : Stop Fault}
      (items : is = before ++ last :: after)
      (quiet : ∀ i ∈ before, i.denial? seq operation = none)
      (denies : last.denial? seq operation = some why) : Settles seq operation is (.error why)
  | answered (quiet : ∀ i ∈ is, i.denial? seq operation = none) :
      Settles seq operation is (.ok (is.filterMap (·.answer? seq)))

/-- The delivery is passed over: it brings nothing but well-framed messages of other requests. -/
def Delivery.Passes (seq : UInt32) (d : Delivery) : Prop := ∀ i ∈ d.items, i.concerns seq = false

namespace Item

/-- What items come to, with the first denial searched for and the answers collected. -/
def reply (seq : UInt32) (operation : String) (is : List Item) :
    Except (Stop Fault) (List Bytes) :=
  match is.findSome? (·.denial? seq operation) with
  | some why => .error why
  | none => .ok (is.filterMap (·.answer? seq))

theorem settles_iff : Settles seq operation is outcome ↔ outcome = reply seq operation is := by
  constructor
  · intro h
    cases h with
    | denied items quiet denies =>
      have hfirst := List.findSome?_eq_some_iff.mpr ⟨_, _, _, items, denies, quiet⟩
      rw [reply, hfirst]
    | answered quiet => rw [reply, List.findSome?_eq_none_iff.mpr quiet]
  · rintro rfl
    rw [reply]
    cases h : is.findSome? (·.denial? seq operation) with
    | none => exact .answered (List.findSome?_eq_none_iff.mp h)
    | some why =>
      obtain ⟨before, last, after, items, denies, quiet⟩ := List.findSome?_eq_some_iff.mp h
      exact .denied items quiet denies

/-- Only an own error message with the lowest code of all breaks a request off. -/
theorem denial?_eq_overflow_iff (seq : UInt32) (operation : String) (i : Item) :
    i.denial? seq operation = some .overflow ↔ i.Overflows seq := by
  cases i with
  | malformed fault | failure errno => simp [denial?, Overflows]
  | message f =>
    have hmin : Int32.minValue ≠ 0 := by decide
    by_cases hk : f.header.seq = seq ∧ f.header.kind = .error
    · rw [denial?, if_pos hk]
      simp only [Overflows, hk.1, hk.2, true_and]
      split_ifs with hl hc
      · simp [hl]
      · simp [hc, hmin.symm]
      · simp [not_lt.mp hl, Stop.ofRefusal_eq_overflow_iff]
    · have hnot : ¬ Overflows seq (.message f) := fun h => hk ⟨h.1, h.2.1⟩
      simp [denial?, hk, hnot]

theorem refusal?_eq_none (operation : String) (h : f.header.kind ≠ .error) :
    f.refusal? operation = none := by
  simp [Frame.refusal?, Header.isError, h]

/-- Only its own messages can deny a request. -/
theorem findSome?_denial (fs : List Frame) :
    (fs.map Item.message).findSome? (·.denial? seq operation) =
      (fs.filter (·.header.seq = seq)).findSome? (Frame.refusal? operation) := by
  induction fs with
  | nil => rfl
  | cons f fs ih =>
    rw [List.map_cons, List.findSome?_cons, ih]
    by_cases hs : f.header.seq = seq
    · have hdenial : (Item.message f).denial? seq operation = f.refusal? operation := by
        by_cases hk : f.header.kind = .error
        · simp [denial?, hs, hk, refusal?_eq operation f hk]
        · simp [denial?, hk, refusal?_eq_none operation hk]
      rw [List.filter_cons_of_pos (by simpa using hs), List.findSome?_cons, hdenial]
    · have hdenial : (Item.message f).denial? seq operation = none := by simp [denial?, hs]
      rw [List.filter_cons_of_neg (by simpa using hs), hdenial]

theorem filterMap_answer (fs : List Frame) :
    (fs.map Item.message).filterMap (·.answer? seq) =
      ((fs.filter (·.header.seq = seq)).filter (!·.header.isError)).map (·.payload) := by
  induction fs with
  | nil => rfl
  | cons f fs ih =>
    by_cases hs : f.header.seq = seq <;> by_cases hk : f.header.kind = .error <;>
      simpa [answer?, Header.isError, hs, hk] using ih

end Item

namespace Reply

theorem ofDatagram_of_passes (h : ∀ i ∈ Item.ofDatagram b, i.concerns seq = false) :
    ofDatagram seq operation b = none := by
  rcases hs : Frame.split b with ⟨fs, _ | fault⟩
  · have hown : fs.filter (·.header.seq = seq) = [] := by
      rw [List.filter_eq_nil_iff]
      intro f hf hseq
      have hother := h (.message f) (by simp [Item.ofDatagram, hs, hf])
      simp_all [Item.concerns]
    simp [ofDatagram, hs, hown]
  · have hother := h (.malformed fault) (by simp [Item.ofDatagram, hs])
    cases hother

/-- A datagram that says something about a request says what its items come to. -/
theorem ofDatagram_of_concerns (h : ∃ i ∈ Item.ofDatagram b, i.concerns seq = true) :
    ofDatagram seq operation b = some (Item.reply seq operation (Item.ofDatagram b)) := by
  rcases hs : Frame.split b with ⟨fs, fault?⟩
  have hitems : Item.ofDatagram b = fs.map .message ++ (fault?.map .malformed).toList := by
    rw [Item.ofDatagram, hs]
  have hdenial : (Item.ofDatagram b).findSome? (·.denial? seq operation) =
      ((fs.filter (·.header.seq = seq)).findSome? (Frame.refusal? operation)).or
        (fault?.map .fault) := by
    rw [hitems, List.findSome?_append, Item.findSome?_denial]
    cases fault? <;> rfl
  have hanswer : (Item.ofDatagram b).filterMap (·.answer? seq) =
      ((fs.filter (·.header.seq = seq)).filter (!·.header.isError)).map (·.payload) := by
    rw [hitems, List.filterMap_append, Item.filterMap_answer]
    cases fault? <;> simp [Item.answer?]
  simp only [ofDatagram, hs, Item.reply, hdenial, hanswer]
  cases hstop :
      ((fs.filter (·.header.seq = seq)).findSome? (Frame.refusal? operation)).or
        (fault?.map .fault) with
  | some why => rfl
  | none =>
    -- the framing is good, so it is a message that the request is concerned by
    obtain ⟨i, hi, hconcerns⟩ := h
    have hgood : fault? = none :=
      Option.map_eq_none_iff.mp (Option.or_eq_none_iff.mp hstop).2
    rw [hitems, hgood] at hi
    obtain ⟨f, hf, rfl⟩ : ∃ f ∈ fs, Item.message f = i := by simpa using hi
    have hown : f ∈ fs.filter (·.header.seq = seq) := by
      simpa [Item.concerns, hf] using hconcerns
    rw [if_neg]
    simp only [List.isEmpty_iff]
    exact List.ne_nil_of_mem hown

theorem collect_of_passes (h : d.Passes seq) (rest : List Delivery) :
    collect seq operation (d :: rest) = collect seq operation rest := by
  cases d with
  | notReady => rfl
  | failure errno =>
    have hother := h (.failure errno) (List.mem_singleton_self _)
    cases hother
  | datagram b => rw [collect, ofDatagram_of_passes h]

theorem collect_of_settles (hp : ¬ d.Passes seq) (h : Settles seq operation d.items outcome)
    (rest : List Delivery) : collect seq operation (d :: rest) = (outcome, rest) := by
  rw [Item.settles_iff] at h
  subst h
  cases d with
  | notReady => exact absurd nofun hp
  | failure errno => rfl
  | datagram b =>
    have hconcerns : ∃ i ∈ Item.ofDatagram (Delivery.received b), i.concerns seq = true := by
      simpa [Delivery.Passes, Delivery.items] using hp
    rw [collect, ofDatagram_of_concerns hconcerns]
    rfl

theorem collect_append_of_passes (h : ∀ d ∈ before, d.Passes seq) (ds : List Delivery) :
    collect seq operation (before ++ ds) = collect seq operation ds := by
  induction before with
  | nil => rfl
  | cons d before ih =>
    rw [List.cons_append, collect_of_passes (h d List.mem_cons_self)]
    exact ih fun x hx => h x (List.mem_cons_of_mem _ hx)

theorem collect_of_all_pass (h : ∀ d ∈ ds, d.Passes seq) :
    collect seq operation ds = (.error (.fault (.io .timedOut)), []) := by
  rw [← List.append_nil ds, collect_append_of_passes h]
  rfl

end Reply

/-- Either everything is passed over, or there is a first delivery that is not. -/
theorem passes_or_first (seq : UInt32) (ds : List Delivery) :
    (∀ d ∈ ds, d.Passes seq) ∨
      ∃ before d rest, ds = before ++ d :: rest ∧ (∀ x ∈ before, x.Passes seq) ∧
        ¬ d.Passes seq := by
  induction ds with
  | nil => exact .inl nofun
  | cons d ds ih =>
    by_cases hd : d.Passes seq
    · rcases ih with hall | ⟨before, first, rest, rfl, hbefore, hfirst⟩
      · exact .inl (List.forall_mem_cons.mpr ⟨hd, hall⟩)
      · exact .inr ⟨d :: before, first, rest, rfl, List.forall_mem_cons.mpr ⟨hd, hbefore⟩, hfirst⟩
    · exact .inr ⟨[], d, ds, rfl, nofun, hd⟩

/-- What the kernel itself answers is a refusal. -/
theorem Item.isLocal_or_refused (hi : i ∈ d.items)
    (h : i.denial? seq operation = some (.fault fault)) :
    fault.isLocal = true ∨ ∃ errno, fault = .refused operation errno := by
  cases i with
  | message f =>
    simp only [denial?] at h
    split_ifs at h
    · cases h
      exact .inl rfl
    · obtain ⟨errno, -, rfl⟩ := Stop.ofRefusal_eq_fault_iff.mp (Option.some.inj h)
      exact .inr ⟨errno, rfl⟩
  | malformed malformedFault =>
    cases h
    have hdelivered : Item.malformed fault ∈ ofDeliveries [d] := by
      cases d with
      | notReady => cases hi
      | failure errno => simp [Delivery.items] at hi
      | datagram b => exact List.mem_append_left _ hi
    exact .inl (Fault.isLocal_of_isOfReply (isOfReply_of_malformed hdelivered))
  | failure errno =>
    cases h
    exact .inl rfl

theorem Reply.isLocal_or_refused (h : (collect seq operation ds).1 = .error (.fault fault)) :
    fault.isLocal = true ∨ ∃ errno, fault = .refused operation errno := by
  rcases passes_or_first seq ds with hall | ⟨before, d, rest, rfl, hbefore, hd⟩
  · rw [collect_of_all_pass hall] at h
    cases h
    exact .inl rfl
  · rw [collect_append_of_passes hbefore, collect_of_settles hd (Item.settles_iff.mpr rfl)] at h
    have hsettles : Settles seq operation d.items (.error (.fault fault)) :=
      Item.settles_iff.mpr h.symm
    cases hsettles with
    | denied items quiet denies =>
      exact Item.isLocal_or_refused (by rw [items]; simp) denies

namespace Session

/-- The first delivery that a request cannot pass over settles it: by the first message that denies
it, by framing, or by failing to be received, and else with the payloads of its own messages other
than errors. What comes later stays for the next request, and if nothing settles the request,
waiting for it does. A message with the lowest code of all denies it by breaking it off, and nothing
else does. -/
theorem request_settled (hs : s.sendFault s.nextSeq = none) (r : Request) (operation : String) :
    (∀ before d rest outcome, s.deliveries = before ++ d :: rest →
      (∀ x ∈ before, x.Passes s.nextSeq) → ¬ d.Passes s.nextSeq →
      Settles s.nextSeq operation d.items outcome →
      s.request r operation = (outcome, s.after r rest)) ∧
    ((∀ x ∈ s.deliveries, x.Passes s.nextSeq) →
      s.request r operation = (.error (.fault (.io .timedOut)), s.after r [])) ∧
    (∀ i : Item, i.denial? s.nextSeq operation = some .overflow ↔ i.Overflows s.nextSeq) ∧
    ((∀ x ∈ s.deliveries, x.Passes s.nextSeq) ∨
      ∃ before d rest outcome, s.deliveries = before ++ d :: rest ∧
        (∀ x ∈ before, x.Passes s.nextSeq) ∧ ¬ d.Passes s.nextSeq ∧
        Settles s.nextSeq operation d.items outcome) := by
  have hrequest : s.request r operation = ((Reply.collect s.nextSeq operation s.deliveries).1,
      s.after r (Reply.collect s.nextSeq operation s.deliveries).2) := by
    rw [request, exchange_eq hs]
  rw [hrequest]
  refine ⟨?_, ?_, Item.denial?_eq_overflow_iff s.nextSeq operation, ?_⟩
  · intro before d rest outcome hds hbefore hd hsettles
    rw [hds, Reply.collect_append_of_passes hbefore, Reply.collect_of_settles hd hsettles]
  · intro hall
    rw [Reply.collect_of_all_pass hall]
  · rcases passes_or_first s.nextSeq s.deliveries with hall | ⟨before, d, rest, hds, hbefore, hd⟩
    · exact .inl hall
    · exact .inr ⟨before, d, rest, _, hds, hbefore, hd, Item.settles_iff.mpr rfl⟩

/-- A payload, an acknowledgement and a refusal. -/
def refusedParts : List Frame := [
  ⟨⟨20, Kind.newLink, 0, 1, 0⟩, [1, 2, 3, 4]⟩,
  ⟨⟨36, Kind.error, 0, 1, 0⟩, List.replicate 20 0⟩,
  ⟨⟨36, Kind.error, 0, 1, 0⟩, [237, 255, 255, 255] ++ List.replicate 16 0⟩]

/-- The refusal is in the second datagram, and a payload comes after it. -/
def refusedSession : Session where
  portId := 7
  deliveries := [datagramOf [⟨⟨20, Kind.newLink, 0, 9, 0⟩, [1, 2, 3, 4]⟩], .notReady,
    datagramOf refusedParts, datagramOf [⟨⟨20, Kind.newLink, 0, 1, 0⟩, [5, 6, 7, 8]⟩]]

theorem items_datagramOf (wf : ∀ f ∈ fs, f.WellFormed)
    (fits : (Frame.encodeAll fs).length ≤ Delivery.capacity) :
    (datagramOf fs).items = fs.map .message := by
  simp [datagramOf, Delivery.items, Item.ofDatagram, split_received wf fits]

theorem request_settled_refusedSession :
    refusedSession.sendFault 1 = none ∧
    refusedSession.request (linkRequest 3) "getting link 3" =
      (.error (.fault (.refused "getting link 3" 19)), refusedSession.after (linkRequest 3)
        [datagramOf [⟨⟨20, Kind.newLink, 0, 1, 0⟩, [5, 6, 7, 8]⟩]]) := by
  have hforeign : (datagramOf [⟨⟨20, Kind.newLink, 0, 9, 0⟩, [1, 2, 3, 4]⟩]).items = _ :=
    items_datagramOf (by decide) (by decide +kernel)
  have hrefused : (datagramOf refusedParts).items = _ :=
    items_datagramOf (by decide) (by decide +kernel)
  have hdenied : Settles 1 "getting link 3" (datagramOf refusedParts).items
      (.error (.fault (.refused "getting link 3" 19))) := by
    rw [Item.settles_iff, hrefused]
    rfl
  refine ⟨rfl, (request_settled rfl (linkRequest 3) "getting link 3").1
    [datagramOf [⟨⟨20, Kind.newLink, 0, 9, 0⟩, [1, 2, 3, 4]⟩], .notReady] _ _ _ rfl ?_ ?_ hdenied⟩
  · intro x hx i hi
    simp only [List.mem_cons, List.not_mem_nil, or_false] at hx
    rcases hx with rfl | rfl
    · rw [hforeign, List.map_singleton, List.mem_singleton] at hi
      rw [hi]
      rfl
    · cases hi
  · intro hpasses
    have hown := hpasses (.message ⟨⟨20, Kind.newLink, 0, 1, 0⟩, [1, 2, 3, 4]⟩)
      (by rw [hrefused]; exact List.mem_cons_self)
    cases hown

/-- The only delivery denies the first request with the lowest code of all. -/
def lowestSession : Session where
  portId := 7
  deliveries := [datagramOf [lowestRefusal]]

theorem items_lowest : (datagramOf [lowestRefusal]).items = [.message lowestRefusal] :=
  items_datagramOf (by decide) (by decide +kernel)

theorem not_passes_lowest : ¬ (datagramOf [lowestRefusal]).Passes 1 := by
  intro h
  have hown := h (.message lowestRefusal) (by rw [items_lowest]; exact List.mem_singleton_self _)
  cases hown

theorem request_lowest (r : Request) (operation : String) :
    (lowestSession.request r operation).1 = .error .overflow := by
  have hdenied : Settles 1 operation (datagramOf [lowestRefusal]).items (.error .overflow) := by
    rw [Item.settles_iff, items_lowest]
    rfl
  rw [request, exchange_eq rfl]
  exact congrArg Prod.fst (Reply.collect_of_settles not_passes_lowest hdenied [])

/-- A request that is denied with the lowest code of all comes to no error, it breaks off. -/
theorem lowest_code_overflows_request :
    ¬ (datagramOf [lowestRefusal]).Passes 1 ∧
      (datagramOf [lowestRefusal]).items = [.message lowestRefusal] ∧
      Item.Overflows 1 (.message lowestRefusal) ∧
      (lowestSession.request (linkRequest 3) "getting link 3").1 = .error .overflow :=
  ⟨not_passes_lowest, items_lowest, overflows_lowest, request_lowest _ _⟩

end Session
end VethPeer
