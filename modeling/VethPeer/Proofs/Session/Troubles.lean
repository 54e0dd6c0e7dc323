import Mathlib
import VethPeer.Proofs.Session.Isolation

/-! What keeps a table from coming in, and how far a dump reads its deliveries. -/
namespace VethPeer

open Wire

variable {α : Type} {decode : Bytes → Except Fault α} {seq : UInt32} {operation : String}
  {i last : Item} {before : List Item} {ds : List Delivery} {d : Dump} {fs : List Frame}
  {b : Bytes} {bs : List Bytes} {fault : Fault}

/-- What keeps the program from what it asks for. -/
inductive Trouble
  /-- What is looked for makes no sense. -/
  | pattern
  /-- A namespace cannot be opened or entered. -/
  | entry (errno : Errno)
  /-- A socket cannot be opened or bound, or cannot send or receive. -/
  | system (errno : Errno)
  /-- The kernel answers with this negative number. -/
  | refusal (code : Int32)
  /-- The kernel answers with the one number that has no negative. -/
  | overflow
  /-- What the kernel sends cannot be used. -/
  | reply
  deriving DecidableEq, Repr

namespace Trouble

def ofFault : Fault → Trouble
  | .entry _ errno => .entry errno
  | .io errno => .system errno
  | .kernel errno | .refused _ errno => .refusal (-errno)
  | _ => .reply

def ofStop : Stop Fault → Trouble
  | .fault fault => ofFault fault
  | .overflow => .overflow

def of? : Except (Stop Fault) α → Option Trouble
  | .ok _ => none
  | .error why => some (ofStop why)

theorem ofFault_of_isOfReply (h : fault.isOfReply = true) : ofFault fault = .reply := by
  cases fault <;> first | rfl | cases h

/-- What a refusal with this code is told by. -/
theorem ofStop_ofRefusal (operation : String) (code : Int32) :
    ofStop (.ofRefusal operation code) =
      if code = Int32.minValue then .overflow else .refusal code := by
  cases hstop : Stop.ofRefusal operation code with
  | overflow => rw [if_pos (Stop.ofRefusal_eq_overflow_iff.mp hstop), ofStop]
  | fault fault =>
    have hcode : code ≠ Int32.minValue := by
      intro hmin
      rw [Stop.ofRefusal_eq_overflow_iff.mpr hmin] at hstop
      cases hstop
    obtain ⟨errno, herrno, rfl⟩ := Stop.ofRefusal_eq_fault_iff.mp hstop
    rw [if_neg hcode, (Errno.eq_iff_of_toInt herrno errno).mp rfl]
    rfl

end Trouble

namespace Item

/-- The trouble that the item brings to the dump of the request `seq`. -/
def trouble? (seq : UInt32) : Item → Option Trouble
  | .failure errno => some (.system errno)
  | .malformed _ => some .reply
  | .message f =>
    if f.header.seq ≠ seq then none
    else if f.header.kind = .error then
      if f.payload.length < 20 then some .reply
      else if errorCode f = 0 then none
      else if errorCode f = Int32.minValue then some .overflow
      else some (.refusal (errorCode f))
    else if f.header.kind = .overrun then some .reply
    else none

/-- The item ends the dump. -/
def ends (seq : UInt32) : Item → Bool
  | .message f => f.header.seq = seq ∧ f.header.kind = .done
  | _ => false

/-- Nothing after the item counts. -/
def settles (seq : UInt32) (i : Item) : Bool := (i.trouble? seq).isSome || i.ends seq

/-- What an item does to a dump, told by the trouble that it brings. -/
theorem decision?_eq (seq : UInt32) (operation : String)
    (hr : ∀ fault, i = .malformed fault → fault.isOfReply = true) :
    match i.decision? seq operation with
    | none => i.trouble? seq = none ∧ i.ends seq = false
    | some (.stop why) => i.trouble? seq = some (.ofStop why) ∧ i.ends seq = false
    | some .finish => i.trouble? seq = none ∧ i.ends seq = true := by
  cases i with
  | failure errno => exact ⟨rfl, rfl⟩
  | malformed fault =>
    simp [decision?, trouble?, ends, Trouble.ofStop, Trouble.ofFault_of_isOfReply (hr fault rfl)]
  | message f =>
    by_cases hs : f.header.seq = seq
    · by_cases he : f.header.kind = .error
      · have hd : (Kind.error : Kind) ≠ .done := by decide
        by_cases hl : f.payload.length < 20
        · simp [decision?, decisionOf, trouble?, ends, hs, he, hl, hd, Trouble.ofStop,
            Trouble.ofFault]
        · by_cases hc : errorCode f = 0
          · simp [decision?, decisionOf, trouble?, ends, hs, he, hl, hc, hd]
          · have hstop := Trouble.ofStop_ofRefusal operation (errorCode f)
            by_cases hmin : errorCode f = Int32.minValue
            · rw [hmin] at hc hstop
              simp [decision?, decisionOf, trouble?, ends, hs, he, hl, hc, hd, hmin, hstop]
            · simp [decision?, decisionOf, trouble?, ends, hs, he, hl, hc, hd, hmin, hstop]
      · by_cases ho : f.header.kind = .overrun
        · have hx : (Kind.overrun : Kind) ≠ .error := by decide
          have hd : (Kind.overrun : Kind) ≠ .done := by decide
          simp [decision?, decisionOf, trouble?, ends, hs, ho, hx, hd, Trouble.ofStop,
            Trouble.ofFault]
        · by_cases hd : f.header.kind = .done
          · rw [hd] at he ho
            simp [decision?, decisionOf, trouble?, ends, hs, hd, he, ho]
          · simp [decision?, decisionOf, trouble?, ends, hs, hd, he, ho]
    · simp [decision?, trouble?, ends, hs]

theorem settles_eq (seq : UInt32) (operation : String)
    (hr : ∀ fault, i = .malformed fault → fault.isOfReply = true) :
    i.settles seq = (i.decision? seq operation).isSome := by
  have h := decision?_eq seq operation hr
  cases hd : i.decision? seq operation with
  | none =>
    rw [hd] at h
    simp [settles, h.1, h.2]
  | some e =>
    rw [hd] at h
    cases e with
    | stop why => simp [settles, h.1]
    | finish => simp [settles, h.2]

end Item

/-- The item settles the dump, and those before it do not. -/
structure Settled (seq : UInt32) (ds : List Delivery) (before : List Item) (last : Item) :
    Prop where
  arrives : ∃ after, Item.ofDeliveries ds = before ++ last :: after
  pending : ∀ i ∈ before, i.settles seq = false

theorem isOfReply_of_mem (hm : i ∈ Item.ofDeliveries ds) (fault : Fault)
    (hi : i = .malformed fault) : fault.isOfReply = true :=
  isOfReply_of_malformed (hi ▸ hm)

theorem Settled.mem (h : Settled seq ds before last) :
    ∀ i ∈ before ++ [last], i ∈ Item.ofDeliveries ds := by
  obtain ⟨⟨after, hi⟩, -⟩ := h
  intro i hm
  rw [hi]
  rcases List.mem_append.mp hm with hm | hm
  · exact List.mem_append_left _ hm
  · exact List.mem_append_right _ (List.mem_singleton.mp hm ▸ List.mem_cons_self)

theorem Settled.collect_eq (h : Settled seq ds before last) {e : Decision}
    (hl : last.decision? seq operation = some e) :
    (Dump.collect seq operation {} ds).1 =
      e.settle operation (Item.note seq (before.foldl (Item.absorb seq) {}) last) := by
  have hb : ∀ i ∈ before, i.decision? seq operation = none := by
    intro i hi
    have hs := Item.settles_eq seq operation
      (isOfReply_of_mem (h.mem i (List.mem_append_left _ hi)))
    rw [h.pending i hi] at hs
    simpa using hs.symm
  obtain ⟨after, hi⟩ := h.arrives
  rw [Item.collect_eq_outcome, hi, Item.outcome_of_decision hb hl]

theorem Settled.collect_of_trouble (h : Settled seq ds before last) {trouble : Trouble}
    (ht : last.trouble? seq = some trouble) (operation : String) :
    ∃ why, (Dump.collect seq operation {} ds).1 = .error why ∧ Trouble.ofStop why = trouble := by
  have hlast := Item.decision?_eq seq operation
    (isOfReply_of_mem (h.mem last (by simp)))
  cases hl : last.decision? seq operation with
  | none =>
    rw [hl, ht] at hlast
    cases hlast.1
  | some e =>
    rw [hl, ht] at hlast
    cases e with
    | stop why => exact ⟨why, h.collect_eq hl, (Option.some.inj hlast.1).symm⟩
    | finish => cases hlast.1

theorem Settled.collect_of_ends (h : Settled seq ds before last) (he : last.ends seq = true)
    (operation : String) :
    (Dump.collect seq operation {} ds).1 =
      if (before ++ [last]).any (·.interrupts seq) then .error (.fault (.interrupted operation))
      else .ok (before.filterMap (·.payload? seq)) := by
  have hlast := Item.decision?_eq seq operation
    (isOfReply_of_mem (h.mem last (by simp)))
  cases hl : last.decision? seq operation with
  | none =>
    rw [hl, he] at hlast
    cases hlast.2
  | some e =>
    rw [hl, he] at hlast
    cases e with
    | stop why => cases hlast.2
    | finish =>
      rw [h.collect_eq hl, Decision.settle, Dump.finish]
      simp [Item.note, Item.foldl_absorb_interrupted, Item.foldl_absorb_payloads]

/-- How the dump of a table goes: what trouble there is with it, or that there is none. -/
inductive Dumped (decode : Bytes → Except Fault α) (seq : UInt32) (ds : List Delivery) :
    Option Trouble → Prop
  | troubled {before : List Item} {last : Item} {trouble : Trouble}
      (settled : Settled seq ds before last) (brings : last.trouble? seq = some trouble) :
      Dumped decode seq ds (some trouble)
  | interrupted {before : List Item} {last i : Item} (settled : Settled seq ds before last)
      (ends : last.ends seq = true) (among : i ∈ before ++ [last])
      (interrupts : i.interrupts seq = true) : Dumped decode seq ds (some .reply)
  | undecodable {before : List Item} {last : Item} {b : Bytes} {fault : Fault}
      (settled : Settled seq ds before last) (ends : last.ends seq = true)
      (payload : b ∈ before.filterMap (·.payload? seq)) (fails : decode b = .error fault) :
      Dumped decode seq ds (some .reply)
  | complete {before : List Item} {last : Item} (settled : Settled seq ds before last)
      (ends : last.ends seq = true) (kept : ∀ i ∈ before ++ [last], i.interrupts seq = false)
      (decodes : ∀ b ∈ before.filterMap (·.payload? seq), ∃ x, decode b = .ok x) :
      Dumped decode seq ds none

/-- No message is about the way to a namespace. -/
theorem Dumped.ne_entry {course : Option Trouble} (h : Dumped decode seq ds course)
    (errno : Errno) : course ≠ some (.entry errno) := by
  cases h with
  | @troubled before last trouble settled brings =>
    rintro ⟨⟩
    cases last with
    | failure errno => cases brings
    | malformed fault => cases brings
    | message f =>
      simp only [Item.trouble?] at brings
      split_ifs at brings <;> cases brings
  | interrupted => exact nofun
  | undecodable => exact nofun
  | complete => exact nofun

theorem exists_dumped (decode : Bytes → Except Fault α) (seq : UInt32) (ds : List Delivery) :
    ∃ course, Dumped decode seq ds course := by
  obtain ⟨before, last, after, e, hi, hb, hl⟩ := Item.exists_decision seq "" ds
  have hmem : ∀ i ∈ before ++ [last], i ∈ Item.ofDeliveries ds := by
    intro i h
    rw [hi]
    rcases List.mem_append.mp h with h | h
    · exact List.mem_append_left _ h
    · rw [List.mem_singleton.mp h]
      simp
  have settled : Settled seq ds before last := by
    refine ⟨⟨after, hi⟩, fun i h => ?_⟩
    rw [Item.settles_eq seq "" (isOfReply_of_mem (hmem i (List.mem_append_left _ h))), hb i h]
    rfl
  have hlast := Item.decision?_eq seq ""
    (isOfReply_of_mem (hmem last (by simp)))
  rw [hl] at hlast
  cases e with
  | stop why => exact ⟨_, .troubled settled hlast.1⟩
  | finish =>
    obtain ⟨-, ends⟩ := hlast
    by_cases hint : ∃ i ∈ before ++ [last], i.interrupts seq = true
    · obtain ⟨i, hi, hint⟩ := hint
      exact ⟨_, .interrupted settled ends hi hint⟩
    · by_cases hdec : ∃ b ∈ before.filterMap (·.payload? seq), ∃ fault, decode b = .error fault
      · obtain ⟨b, hb, fault, hfault⟩ := hdec
        exact ⟨_, .undecodable settled ends hb hfault⟩
      · refine ⟨_, .complete settled ends (fun i hi => ?_) (fun b hb => ?_)⟩
        · by_contra h
          exact hint ⟨i, hi, by simpa using h⟩
        · cases hb' : decode b with
          | ok x => exact ⟨x, rfl⟩
          | error fault => exact (hdec ⟨b, hb, fault, hb'⟩).elim

/-- Entries are decoded together or not at all. -/
theorem mapM_decode (decode : Bytes → Except Fault α) (bs : List Bytes) :
    match bs.mapM decode with
    | .ok _ => ∀ b ∈ bs, ∃ x, decode b = .ok x
    | .error fault => ∃ b ∈ bs, decode b = .error fault := by
  rcases decodes_or_spoiled decode (.ok bs) with ⟨bs', xs, hbs, decodable⟩ | ⟨fault, spoiled⟩
  · cases hbs
    rw [decodable.mapM_eq]
    intro b hb
    obtain ⟨x, -, hx⟩ := exists_mem_of_forall₂ decodable hb
    exact ⟨x, hx⟩
  · cases spoiled with
    | undecodable decodable fails =>
      rw [mapM_of_undecodable decodable fails]
      exact ⟨_, List.mem_append_right _ List.mem_cons_self, fails⟩

/-- A dump goes as its messages say. -/
theorem Dumped.trouble_eq {course : Option Trouble}
    (hd : ∀ b fault, decode b = .error fault → fault.isOfReply = true)
    (h : Dumped decode seq ds course) (operation : String) :
    Trouble.of? (Session.decodeAll decode (Dump.collect seq operation {} ds).1) = course := by
  cases h with
  | troubled settled brings =>
    obtain ⟨why, hwhy, rfl⟩ := settled.collect_of_trouble brings operation
    rw [hwhy]
    rfl
  | @interrupted before last i settled ends among interrupts =>
    have hany : (before ++ [last]).any (·.interrupts seq) = true :=
      List.any_eq_true.mpr ⟨i, among, interrupts⟩
    rw [settled.collect_of_ends ends, if_pos hany]
    rfl
  | @undecodable before last b fault settled ends payload fails =>
    rw [settled.collect_of_ends ends]
    split_ifs
    · rfl
    · rw [Session.decodeAll_ok]
      have hm := mapM_decode decode (before.filterMap (·.payload? seq))
      cases hbs : (before.filterMap (·.payload? seq)).mapM decode with
      | ok xs =>
        rw [hbs] at hm
        obtain ⟨x, hx⟩ := hm b payload
        rw [fails] at hx
        cases hx
      | error first =>
        rw [hbs] at hm
        obtain ⟨c, -, hc⟩ := hm
        exact congrArg some (Trouble.ofFault_of_isOfReply (hd c first hc))
  | @complete before last settled ends kept decodes =>
    have hany : ¬ (before ++ [last]).any (·.interrupts seq) = true := by
      intro h
      obtain ⟨i, hi, hint⟩ := List.any_eq_true.mp h
      rw [kept i hi] at hint
      cases hint
    rw [settled.collect_of_ends ends, if_neg hany, Session.decodeAll_ok]
    have hm := mapM_decode decode (before.filterMap (·.payload? seq))
    cases hbs : (before.filterMap (·.payload? seq)).mapM decode with
    | ok xs => rfl
    | error first =>
      rw [hbs] at hm
      obtain ⟨c, hc, hfail⟩ := hm
      obtain ⟨x, hx⟩ := decodes c hc
      rw [hfail] at hx
      cases hx

/-! ## What is left -/

/-- What one delivery brings. -/
def Delivery.items : Delivery → List Item
  | .notReady => []
  | .failure errno => [.failure errno]
  | .datagram b => Item.ofDatagram (received b)

/-- The deliveries after the one in which the dump is settled. -/
def unread (seq : UInt32) : List Delivery → List Delivery
  | [] => []
  | delivery :: ds => if delivery.items.any (·.settles seq) then ds else unread seq ds

/-- A dump goes on after messages that do not settle it. -/
theorem feed_pending_iff (seq : UInt32) (operation : String) (d : Dump) (fs : List Frame) :
    (∃ d', Dump.feed seq operation d fs = .ok (d', false)) ↔
      ∀ f ∈ fs, (Item.message f).settles seq = false := by
  induction fs generalizing d with
  | nil => exact ⟨fun _ => nofun, fun _ => ⟨d, rfl⟩⟩
  | cons f fs ih =>
    have hs : (Item.message f).settles seq = ((Item.message f).decision? seq operation).isSome :=
      Item.settles_eq seq operation nofun
    rw [Item.feed_cons, List.forall_mem_cons, hs]
    cases hd : (Item.message f).decision? seq operation with
    | none => simpa using ih _
    | some e => cases e <;> simp

/-- A dump takes no delivery after the one in which it is settled. -/
theorem collect_unread (d : Dump) (ds : List Delivery) :
    (Dump.collect seq operation d ds).2 = unread seq ds := by
  induction ds generalizing d with
  | nil => rfl
  | cons delivery ds ih =>
    cases delivery with
    | notReady => exact ih d
    | failure errno => rfl
    | datagram b =>
      have hpending := feed_pending_iff seq operation d (Frame.split (Delivery.received b)).1
      simp only [Dump.collect, unread, Delivery.items, Item.ofDatagram, List.any_append,
        List.any_map]
      -- the datagram settles the dump by one of its messages, or by its framing
      by_cases hall : ∀ f ∈ (Frame.split (Delivery.received b)).1,
          (Item.message f).settles seq = false
      · obtain ⟨d', hfeed⟩ := hpending.mpr hall
        have hnone : (Frame.split (Delivery.received b)).1.any
            ((·.settles seq) ∘ Item.message) = false := by
          simpa using hall
        rw [hfeed, hnone]
        cases (Frame.split (Delivery.received b)).2 with
        | none => simpa using ih d'
        | some fault => rfl
      · have hsome : (Frame.split (Delivery.received b)).1.any
            ((·.settles seq) ∘ Item.message) = true := by
          simpa using hall
        rw [hsome]
        cases hfeed : Dump.feed seq operation d (Frame.split (Delivery.received b)).1 with
        | error fault => rfl
        | ok p =>
          obtain ⟨d', _ | _⟩ := p
          · exact (hall (hpending.mp ⟨d', hfeed⟩)).elim
          · rfl

end VethPeer
