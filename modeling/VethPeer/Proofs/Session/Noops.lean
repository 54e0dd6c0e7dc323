import Mathlib
import VethPeer.Proofs.Session.Calls
import VethPeer.Proofs.Session.Replies
import VethPeer.Proofs.Wire.Tiling

/-! Messages that say nothing and have to be discarded, put in among the replies to a call. A dump
discards them all, a request only those of other requests. -/
namespace VethPeer

open Wire

/-- The second list is the first with more put in anywhere, of which this holds. -/
inductive Interspersed {α : Type} (p : α → Prop) : List α → List α → Prop
  | nil : Interspersed p [] []
  | keep {xs ys : List α} (x : α) (tail : Interspersed p xs ys) : Interspersed p (x :: xs) (x :: ys)
  | insert {x : α} {xs ys : List α} (put : p x) (tail : Interspersed p xs ys) :
      Interspersed p xs (x :: ys)

namespace Interspersed

variable {α β : Type} {p q : α → Prop} {xs xs' ys ys' : List α}

theorem refl (xs : List α) : Interspersed p xs xs := by
  induction xs with
  | nil => exact .nil
  | cons x xs ih => exact .keep x ih

theorem append (h : Interspersed p xs ys) (h' : Interspersed p xs' ys') :
    Interspersed p (xs ++ xs') (ys ++ ys') := by
  induction h with
  | nil => exact h'
  | keep x tail ih => exact .keep x ih
  | insert put tail ih => exact .insert put ih

theorem map {q : β → Prop} (h : Interspersed p xs ys) (f : α → β) (hf : ∀ x, p x → q (f x)) :
    Interspersed q (xs.map f) (ys.map f) := by
  induction h with
  | nil => exact .nil
  | keep x tail ih => exact .keep (f x) ih
  | insert put tail ih => exact .insert (hf _ put) ih

theorem mono (h : Interspersed p xs ys) (hpq : ∀ y ∈ ys, p y → q y) : Interspersed q xs ys := by
  induction h with
  | nil => exact .nil
  | keep x tail ih => exact .keep x (ih fun y hy => hpq y (List.mem_cons_of_mem _ hy))
  | insert put tail ih =>
    exact .insert (hpq _ List.mem_cons_self put) (ih fun y hy => hpq y (List.mem_cons_of_mem _ hy))

theorem sublist (h : Interspersed p xs ys) : xs.Sublist ys := by
  induction h with
  | nil => exact .slnil
  | keep x tail ih => exact ih.cons_cons x
  | insert put tail ih => exact ih.cons _

theorem mem_or {y : α} (h : Interspersed p xs ys) (hy : y ∈ ys) : y ∈ xs ∨ p y := by
  induction h with
  | nil => cases hy
  | keep x tail ih =>
    rcases List.mem_cons.mp hy with rfl | hy
    · exact .inl List.mem_cons_self
    · exact (ih hy).imp (List.mem_cons_of_mem _) id
  | insert put tail ih =>
    rcases List.mem_cons.mp hy with rfl | hy
    · exact .inr put
    · exact ih hy

theorem filterMap_eq {f : α → Option β} (h : Interspersed p xs ys) (hf : ∀ x, p x → f x = none) :
    ys.filterMap f = xs.filterMap f := by
  induction h with
  | nil => rfl
  | keep x tail ih => rw [List.filterMap_cons, List.filterMap_cons, ih]
  | insert put tail ih => rw [List.filterMap_cons_none (hf _ put), ih]

theorem findSome?_eq {f : α → Option β} (h : Interspersed p xs ys) (hf : ∀ x, p x → f x = none) :
    ys.findSome? f = xs.findSome? f := by
  induction h with
  | nil => rfl
  | keep x tail ih => rw [List.findSome?_cons, List.findSome?_cons, ih]
  | insert put tail ih => rw [List.findSome?_cons, hf _ put, ih]

end Interspersed

variable {numbers : UInt32 → Prop} {seq : UInt32} {operation : String} {f : Frame}
  {fs gs : List Frame} {i : Item} {is js : List Item} {d d' : Delivery} {ds ds' : List Delivery}
  {b b' : Bytes} {payloads : List Bytes}

/-- The message says nothing and has to be discarded. -/
def Wire.Frame.IsNoop (f : Frame) : Prop := f.header.kind = .noop ∧ f.header.flags = 0

instance (f : Frame) : Decidable f.IsNoop := inferInstanceAs (Decidable (_ ∧ _))

/-- It says nothing, and has a number of which this holds. -/
def IsNoopOf (numbers : UInt32 → Prop) (f : Frame) : Prop := f.IsNoop ∧ numbers f.header.seq

/-- The second delivery is the first or has more messages, which say nothing. Both are whole
datagrams of well-framed messages then. -/
inductive MoreNoops (numbers : UInt32 → Prop) : Delivery → Delivery → Prop
  | same (d : Delivery) : MoreNoops numbers d d
  | more {b b' : Bytes} (whole : b.length ≤ Delivery.capacity)
      (whole' : b'.length ≤ Delivery.capacity) (framed : (Frame.split b).2 = none)
      (framed' : (Frame.split b').2 = none)
      (frames : Interspersed (IsNoopOf numbers) (Frame.split b).1 (Frame.split b').1) :
      MoreNoops numbers (.datagram b) (.datagram b')

/-- What is read of messages that end at a multiple of four, and of anything behind them. -/
theorem Wire.Frame.split_append_of_dvd (hs : Frame.split b = (fs, none)) (hd : 4 ∣ b.length)
    (b' : Bytes) :
    Frame.split (b ++ b') = (fs ++ (Frame.split b').1, (Frame.split b').2) := by
  obtain ⟨rest, htiles, hends⟩ := Frame.split_eq_iff.mp hs
  cases hends
  clear hs
  generalize hrest : ([] : Bytes) = rest at htiles
  induction htiles with
  | nil => subst hrest; rfl
  | @cons f fs skipped more rest wf most full tail ih =>
    have hgap : f.bytes.length + f.gap = Bytes.aligned f.bytes.length :=
      Nat.add_sub_cancel' (Bytes.le_aligned _)
    have haligned : 4 ∣ Bytes.aligned f.bytes.length := Bytes.dvd_aligned _
    rw [List.length_append, List.length_append] at hd
    have hskipped : skipped.length = f.gap := by
      by_cases hm : more = []
      · rw [hm, List.length_nil] at hd
        have := f.gap_le_three
        omega
      · exact full hm
    have hnext : Frame.next (f.bytes ++ skipped ++ (more ++ b')) = .ok (f, more ++ b') :=
      Frame.next_tile wf most fun _ => hskipped
    rw [List.append_assoc, Frame.split_of_next hnext, ih (by omega) hrest, List.cons_append]

/-- A message may be put in wherever one ends or begins. -/
theorem moreNoops_insert (hf : IsNoopOf numbers f) (wf : f.WellFormed)
    (framed : (Frame.split b).2 = none) (boundary : 4 ∣ b.length)
    (framed' : (Frame.split b').2 = none)
    (fits : (b ++ f.encode ++ b').length ≤ Delivery.capacity) :
    MoreNoops numbers (.datagram (b ++ b')) (.datagram (b ++ f.encode ++ b')) := by
  have hs : Frame.split b = ((Frame.split b).1, none) := Prod.ext rfl framed
  have hnext := Frame.split_of_next (Frame.next_encode_append wf b')
  have hold := Frame.split_append_of_dvd hs boundary b'
  have hnew := Frame.split_append_of_dvd hs boundary (f.encode ++ b')
  rw [hnext] at hnew
  rw [List.append_assoc] at fits ⊢
  refine .more ?_ fits (by rw [hold, framed']) (by rw [hnew, framed']) ?_
  · simp only [List.length_append] at fits ⊢
    omega
  · rw [hold, hnew]
    exact (Interspersed.refl _).append (.insert hf (.refl _))

namespace Item

/-- The item is a message that says nothing. -/
def IsNoopOf (numbers : UInt32 → Prop) (i : Item) : Prop :=
  ∃ f, i = .message f ∧ VethPeer.IsNoopOf numbers f

theorem IsNoopOf.denial?_eq (h : i.IsNoopOf numbers) : i.denial? seq operation = none := by
  obtain ⟨f, rfl, ⟨hkind, -⟩, -⟩ := h
  have hne : (Kind.noop : Kind) ≠ .error := by decide
  rw [denial?, hkind, if_neg fun hk => hne hk.2]

theorem IsNoopOf.decision?_eq (h : i.IsNoopOf numbers) : i.decision? seq operation = none := by
  obtain ⟨f, rfl, ⟨hkind, -⟩, -⟩ := h
  have hdecision : decisionOf operation f = none := by
    rw [decisionOf, hkind]
    rfl
  rw [decision?, hdecision, ite_self]

theorem IsNoopOf.absorb_eq (h : i.IsNoopOf numbers) (d : Dump) : absorb seq d i = d := by
  obtain ⟨f, rfl, ⟨hkind, hflags⟩, -⟩ := h
  simp [absorb, note, interrupts, payload?, hkind, hflags]

theorem IsNoopOf.concerns_eq (h : i.IsNoopOf (· ≠ seq)) : i.concerns seq = false := by
  obtain ⟨f, rfl, -, hseq⟩ := h
  simpa [concerns] using hseq

theorem IsNoopOf.answer?_eq (h : i.IsNoopOf (· ≠ seq)) : i.answer? seq = none := by
  obtain ⟨f, rfl, -, hseq⟩ := h
  rw [answer?, if_neg fun hk => hseq hk.1]

/-- A dump comes to the same with more messages that say nothing. -/
theorem outcome_interspersed (h : Interspersed (IsNoopOf numbers) is js) (d : Dump) :
    outcome seq operation d js = outcome seq operation d is := by
  induction h generalizing d with
  | nil => rfl
  | keep i tail ih => rw [outcome, outcome, ih]
  | insert put tail ih => rw [outcome, put.decision?_eq, put.absorb_eq, ih]

end Item

theorem MoreNoops.items (h : MoreNoops numbers d d') :
    Interspersed (Item.IsNoopOf numbers) d.items d'.items := by
  cases h with
  | same => exact .refl _
  | more whole whole' framed framed' frames =>
    have hitems {b : Bytes} (whole : b.length ≤ Delivery.capacity)
        (framed : (Frame.split b).2 = none) :
        Delivery.items (.datagram b) = (Frame.split b).1.map .message := by
      rw [Delivery.items, Item.ofDatagram, Delivery.received, List.take_of_length_le whole, framed]
      exact List.append_nil _
    rw [hitems whole framed, hitems whole' framed']
    exact frames.map _ fun f hf => ⟨f, rfl, hf⟩

theorem Item.ofDeliveries_cons (d : Delivery) (ds : List Delivery) :
    ofDeliveries (d :: ds) = d.items ++ ofDeliveries ds := by
  cases d <;> rfl

theorem interspersed_ofDeliveries (h : List.Forall₂ (MoreNoops numbers) ds ds') :
    Interspersed (Item.IsNoopOf numbers) (Item.ofDeliveries ds) (Item.ofDeliveries ds') := by
  induction h with
  | nil => exact .refl _
  | cons hd _ ih =>
    rw [Item.ofDeliveries_cons, Item.ofDeliveries_cons]
    exact hd.items.append ih

theorem Item.concerns_of_denial {why : Stop Fault} (h : i.denial? seq operation = some why) :
    i.concerns seq = true := by
  cases i with
  | message f =>
    simp only [denial?] at h
    split at h
    · exact decide_eq_true_eq.mpr (‹_ ∧ _›).1
    · cases h
  | malformed => rfl
  | failure => rfl

theorem MoreNoops.passes_iff (h : Interspersed (Item.IsNoopOf (· ≠ seq)) d.items d'.items) :
    d'.Passes seq ↔ d.Passes seq := by
  refine ⟨fun hp i hi => hp i (h.sublist.subset hi), fun hp i hi => ?_⟩
  rcases h.mem_or hi with hi | hnoop
  · exact hp i hi
  · exact hnoop.concerns_eq

theorem Dump.collect_moreNoops (h : List.Forall₂ (MoreNoops numbers) ds ds') :
    (collect seq operation {} ds').1 = (collect seq operation {} ds).1 := by
  rw [Item.collect_eq_outcome, Item.collect_eq_outcome]
  exact Item.outcome_interspersed (interspersed_ofDeliveries h) {}

/-- A message that says nothing is taken for an answer to the request `seq`: it has the number of
the request, and what it comes with is not passed over and denies nothing. -/
inductive Misread (seq : UInt32) (operation : String) : List Delivery → List Bytes → Prop
  | here {d : Delivery} {f : Frame} (noop : f.IsNoop) (own : f.header.seq = seq)
      (among : .message f ∈ d.items) (quiet : ∀ i ∈ d.items, i.denial? seq operation = none)
      (rest : List Delivery) :
      Misread seq operation (d :: rest) (d.items.filterMap (·.answer? seq))
  | later {d : Delivery} {ds : List Delivery} {payloads : List Bytes} (passed : d.Passes seq)
      (tail : Misread seq operation ds payloads) : Misread seq operation (d :: ds) payloads

namespace Misread

theorem collect_eq (h : Misread seq operation ds payloads) :
    (Reply.collect seq operation ds).1 = .ok payloads := by
  induction h with
  | @here d f noop own among quiet rest =>
    have hp : ¬ d.Passes seq := by
      intro hp
      have hown := hp _ among
      rw [Item.concerns, decide_eq_false_iff_not] at hown
      exact hown own
    rw [Reply.collect_of_settles hp (.answered quiet)]
  | later passed tail ih => rw [Reply.collect_of_passes passed, ih]

/-- What it carries is among the answers. -/
theorem exists_payload_mem (h : Misread seq operation ds payloads) :
    ∃ f : Frame, f.IsNoop ∧ f.header.seq = seq ∧ f.payload ∈ payloads := by
  induction h with
  | @here d f noop own among quiet rest =>
    have hkind : f.header.kind ≠ .error := by
      rw [noop.1]
      decide
    exact ⟨f, noop, own, List.mem_filterMap.mpr ⟨_, among, if_pos ⟨own, hkind⟩⟩⟩
  | later passed tail ih => exact ih

end Misread

namespace Reply

/-- A delivery comes to the same with more messages of other requests. -/
theorem collect_cons_congr (h : Interspersed (Item.IsNoopOf (· ≠ seq)) d.items d'.items)
    (hrest : d'.Passes seq → (collect seq operation ds').1 = (collect seq operation ds).1) :
    (collect seq operation (d' :: ds')).1 = (collect seq operation (d :: ds)).1 := by
  by_cases hp' : d'.Passes seq
  · rw [collect_of_passes hp', collect_of_passes ((MoreNoops.passes_iff h).mp hp'), hrest hp']
  · have hp : ¬ d.Passes seq := mt (MoreNoops.passes_iff h).mpr hp'
    have hreply : Item.reply seq operation d'.items = Item.reply seq operation d.items := by
      rw [Item.reply, Item.reply, h.findSome?_eq fun i hi => hi.denial?_eq,
        h.filterMap_eq fun i hi => hi.answer?_eq]
    rw [collect_of_settles hp (Item.settles_iff.mpr rfl),
      collect_of_settles hp' (Item.settles_iff.mpr rfl), hreply]

theorem collect_of_foreign (h : List.Forall₂ (MoreNoops (· ≠ seq)) ds ds') :
    (collect seq operation ds').1 = (collect seq operation ds).1 := by
  induction h with
  | nil => rfl
  | cons hd _ ih => exact collect_cons_congr hd.items fun _ => ih

/-- Nothing changes where no message that says nothing is taken for an answer. -/
theorem collect_of_not_misread (h : List.Forall₂ (MoreNoops numbers) ds ds')
    (hn : ∀ payloads, ¬ Misread seq operation ds' payloads) :
    (collect seq operation ds').1 = (collect seq operation ds).1 := by
  induction h with
  | nil => rfl
  | @cons d d' ds ds' hd _ ih =>
    cases hdenial : d'.items.findSome? (·.denial? seq operation) with
    | some why =>
      -- what denies the request is in both, and hides the rest of the delivery
      have hdenial' := hdenial
      rw [hd.items.findSome?_eq fun i hi => hi.denial?_eq] at hdenial'
      have hsettles {x : Delivery} (hx : x.items.findSome? (·.denial? seq operation) = some why) :
          ¬ x.Passes seq ∧ Settles seq operation x.items (.error why) := by
        obtain ⟨i, hi, hwhy⟩ := List.exists_of_findSome?_eq_some hx
        refine ⟨fun hp => ?_, Item.settles_iff.mpr (by rw [Item.reply, hx])⟩
        have hconcerns := Item.concerns_of_denial hwhy
        rw [hp i hi] at hconcerns
        cases hconcerns
      rw [collect_of_settles (hsettles hdenial').1 (hsettles hdenial').2,
        collect_of_settles (hsettles hdenial).1 (hsettles hdenial).2]
    | none =>
      -- what was put in is of other requests, since it would be misread otherwise
      have hquiet := List.findSome?_eq_none_iff.mp hdenial
      have hforeign : Interspersed (Item.IsNoopOf (· ≠ seq)) d.items d'.items := by
        refine hd.items.mono ?_
        rintro i hi ⟨f, rfl, hnoop, -⟩
        exact ⟨f, rfl, hnoop, fun hown => hn _ (.here hnoop hown hi hquiet ds')⟩
      exact collect_cons_congr hforeign fun hp => ih fun payloads hm => hn payloads (.later hp hm)

end Reply

namespace Call

/-- What a call says it does, if it asks for one thing and not for a table. -/
def asks? : Call → Option String
  | .link index => some s!"getting link {index.toInt}"
  | .request _ operation => some operation
  | _ => none

theorem collects_of_asks {c : Call} (h : c.asks? = some operation) (seq : UInt32) :
    c.collects seq = Reply.collect seq operation := by
  cases c <;> cases h <;> rfl

theorem collects_of_not_asks {c : Call} (h : c.asks? = none) :
    ∃ operation, ∀ seq, c.collects seq = Dump.collect seq operation {} := by
  cases c with
  | link => cases h
  | request => cases h
  | links => exact ⟨_, fun _ => rfl⟩
  | addresses => exact ⟨_, fun _ => rfl⟩
  | dump => exact ⟨_, fun _ => rfl⟩

theorem perform_receiving {outcome : Except (Stop Fault) (List Bytes)} {s : Session} (c : Call)
    (hs : s.sendFault s.nextSeq = none) (h : (c.collects s.nextSeq ds').1 = outcome) :
    (c.perform (s.receiving ds')).1 = c.reads outcome := by
  have hs' : (s.receiving ds').sendFault (s.receiving ds').nextSeq = none := hs
  rw [perform_eq, Session.exchange_eq hs', ← h]
  rfl

/-- What is collected is all that a call depends on, and a call that is not sent collects nothing. -/
theorem perform_congr {s : Session} (c : Call)
    (h : (c.collects s.nextSeq ds').1 = (c.collects s.nextSeq s.deliveries).1) :
    (c.perform (s.receiving ds')).1 = (c.perform s).1 := by
  cases hs : s.sendFault s.nextSeq with
  | none => exact (c.perform_receiving hs h).trans (c.perform_receiving hs rfl).symm
  | some errno =>
    have hs' : (s.receiving ds').sendFault (s.receiving ds').nextSeq = some errno := hs
    rw [perform_eq, perform_eq, Session.exchange_of_fault hs, Session.exchange_of_fault hs']

/-- Messages that say nothing, put in among what a session delivers, change nothing for a call that
wants a table. For one that asks for one thing they change nothing if they have other numbers than
its own. With its own number one may be taken for an answer, which the call then returns or reads
as a link, and that is all that can come of it. -/
theorem perform_moreNoops {s : Session} (c : Call)
    (h : List.Forall₂ (MoreNoops fun _ => True) s.deliveries ds') :
    (c.asks? = none → (c.perform (s.receiving ds')).1 = (c.perform s).1) ∧
    (List.Forall₂ (MoreNoops (· ≠ s.nextSeq)) s.deliveries ds' →
      (c.perform (s.receiving ds')).1 = (c.perform s).1) ∧
    ∀ operation, c.asks? = some operation →
      (∀ payloads, s.sendFault s.nextSeq = none → Misread s.nextSeq operation ds' payloads →
        (c.perform (s.receiving ds')).1 = c.reads (.ok payloads) ∧
        ∃ f : Frame, f.IsNoop ∧ f.header.seq = s.nextSeq ∧ f.payload ∈ payloads) ∧
      ((∀ payloads, ¬ Misread s.nextSeq operation ds' payloads) →
        (c.perform (s.receiving ds')).1 = (c.perform s).1) := by
  have htable (hc : c.asks? = none) : (c.perform (s.receiving ds')).1 = (c.perform s).1 := by
    obtain ⟨operation, hcollects⟩ := collects_of_not_asks hc
    refine c.perform_congr ?_
    rw [hcollects]
    exact Dump.collect_moreNoops h
  refine ⟨htable, ?_, ?_⟩
  · intro hforeign
    cases hc : c.asks? with
    | none => exact htable hc
    | some operation =>
      refine c.perform_congr ?_
      rw [collects_of_asks hc]
      exact Reply.collect_of_foreign hforeign
  · intro operation hc
    constructor
    · intro payloads hs hm
      refine ⟨c.perform_receiving hs ?_, hm.exists_payload_mem⟩
      rw [collects_of_asks hc]
      exact hm.collect_eq
    · intro hn
      refine c.perform_congr ?_
      rw [collects_of_asks hc]
      exact Reply.collect_of_not_misread h hn

end Call

namespace Session

def silent (seq : UInt32) : Frame := ⟨⟨16, Kind.noop, 0, seq, 0⟩, []⟩

theorem length_encode_silent (seq : UInt32) : (silent seq).encode.length = 16 := by
  have haligned : Bytes.aligned (Header.size + 0) = 16 := by decide
  rw [Frame.encode, Bytes.length_padded, Frame.length_frameBytes]
  exact haligned

/-- A link without a name, as a reply and in a table. -/
def someLink : Frame :=
  ⟨⟨32, Kind.newLink, 0, 1, 0⟩, [0, 0, 1, 0, 7, 0, 0, 0, 0, 0, 0, 0, 0, 0, 0, 0]⟩

def someDone : Frame := ⟨⟨16, Kind.done, 0, 1, 0⟩, []⟩

def someSession : Session where
  portId := 77
  deliveries := [datagramOf [someLink], datagramOf [someDone]]

theorem moreNoops_someSession (numbers : UInt32 → Prop) (seq : UInt32) (hn : numbers seq) :
    List.Forall₂ (MoreNoops numbers) someSession.deliveries
      [datagramOf [silent seq, someLink], datagramOf [someDone]] := by
  have hlink : (Frame.split (Frame.encodeAll [someLink])).2 = none := by
    rw [Frame.split_encodeAll (by decide)]
  have hlength : ([] ++ (silent seq).encode ++ Frame.encodeAll [someLink]).length ≤
      Delivery.capacity := by
    rw [List.nil_append, List.length_append, length_encode_silent]
    decide
  have hfirst := moreNoops_insert (f := silent seq) (b := []) ⟨⟨rfl, rfl⟩, hn⟩ rfl
    (by rw [Frame.split_nil]) (dvd_zero 4) hlink hlength
  exact .cons hfirst (.cons (.same _) .nil)

theorem items_silent (seq : UInt32) :
    (datagramOf [silent seq, someLink]).items = [.message (silent seq), .message someLink] := by
  have wf : ∀ f ∈ [silent seq, someLink], f.WellFormed := by
    simp only [List.forall_mem_cons, List.not_mem_nil, false_implies, implies_true, and_true]
    exact ⟨rfl, rfl⟩
  refine items_datagramOf wf ?_
  rw [Frame.encodeAll, List.flatMap_cons, List.length_append, length_encode_silent]
  decide

theorem misread_someSession (operation : String) :
    Misread 1 operation [datagramOf [silent 1, someLink], datagramOf [someDone]]
      [[], someLink.payload] := by
  have hitems := items_silent 1
  have hanswers : (datagramOf [silent 1, someLink]).items.filterMap (·.answer? 1) =
      [[], someLink.payload] := by
    rw [hitems]
    rfl
  rw [← hanswers]
  refine .here (f := silent 1) ⟨rfl, rfl⟩ rfl ?_ ?_ _
  · rw [hitems]
    exact List.mem_cons_self
  · rw [hitems]
    simp only [List.forall_mem_cons, List.not_mem_nil, false_implies, implies_true, and_true]
    exact ⟨rfl, rfl⟩

/-- A message that says nothing is left out of the table, and of the answer to a question with
another number. With the number of the question it is read as the link. -/
theorem perform_moreNoops_someSession :
    (Call.links.perform (someSession.receiving
      [datagramOf [silent 1, someLink], datagramOf [someDone]])).1 =
        (Call.links.perform someSession).1 ∧
    ((Call.link 7).perform (someSession.receiving
      [datagramOf [silent 9, someLink], datagramOf [someDone]])).1 =
        ((Call.link 7).perform someSession).1 ∧
    ((Call.link 7).perform (someSession.receiving
      [datagramOf [silent 1, someLink], datagramOf [someDone]])).1 =
        .link (.error (.fault (.badRecord (.stopped 0 0)))) := by
  have hown := moreNoops_someSession (fun _ => True) 1 trivial
  have hother := moreNoops_someSession (fun _ => True) 9 trivial
  have hforeign := moreNoops_someSession (· ≠ 1) 9 (by decide)
  refine ⟨(Call.links.perform_moreNoops hown).1 rfl, ((Call.link 7).perform_moreNoops hother).2.1
    hforeign, ?_⟩
  exact (((Call.link 7).perform_moreNoops hown).2.2 _ rfl).1 _ rfl (misread_someSession _) |>.1

/-- Without it, the link is there. -/
theorem own_noop_misread :
    ((Call.link 7).perform someSession).1 =
      .link (.ok (some { family := 0, type := 1, index := 7, flags := 0, change := 0 })) ∧
    List.Forall₂ (MoreNoops fun _ => True) someSession.deliveries
      [datagramOf [silent 1, someLink], datagramOf [someDone]] ∧
    ((Call.link 7).perform (someSession.receiving
      [datagramOf [silent 1, someLink], datagramOf [someDone]])).1 =
        .link (.error (.fault (.badRecord (.stopped 0 0)))) := by
  exact ⟨by cbv, moreNoops_someSession _ 1 trivial, by cbv⟩

end Session
end VethPeer
