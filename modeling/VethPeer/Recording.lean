import VethPeer.Probe.World

/-! A world written down: one fact a line, first of the host, then of each process in turn. -/
namespace VethPeer.Recording

/-- What the lines so far say; the processes are listed last one first. -/
structure Draft where
  world : World := {}
  processes : List ProcessEntry := []

/-- Facts that hold of the host and of a process alike. -/
structure Side where
  endpoint : Endpoint
  identity : Except Errno NamespaceId

def Draft.side (d : Draft) : Side :=
  match d.processes with
  | p :: _ => ⟨p.endpoint, p.identity⟩
  | [] => ⟨d.world.host, d.world.hostIdentity⟩

def Draft.withSide (d : Draft) (s : Side) : Draft :=
  match d.processes with
  | p :: ps => { d with processes := { p with endpoint := s.endpoint, identity := s.identity } :: ps }
  | [] => { d with world := { d.world with host := s.endpoint, hostIdentity := s.identity } }

def Draft.change (d : Draft) (f : Endpoint → Endpoint) : Draft :=
  d.withSide { d.side with endpoint := f d.side.endpoint }

def Draft.changeProcess (d : Draft) (f : ProcessEntry → ProcessEntry) : Option Draft :=
  match d.processes with
  | p :: ps => some { d with processes := f p :: ps }
  | [] => none

/-- Two digits a byte. -/
def bytes? : List Char → Option Bytes
  | [] => some []
  | [_] => none
  | high :: low :: cs => do
    let h ← Numeral.digitValue? 16 high
    let l ← Numeral.digitValue? 16 low
    return .ofNat (16 * h + l) :: (← bytes? cs)

def errno? (s : String) : Option Errno :=
  (Numeral.between? (-2147483648) 2147483647 s).map .ofInt

def word? (s : String) : Option UInt32 :=
  (Numeral.between? 0 4294967295 s).map fun n => .ofNat n.toNat

def namespaceId? (s : String) : Option NamespaceId := do
  match s.splitOn " " with
  | [device, inode] => return ⟨.ofNat (← number? device), .ofNat (← number? inode)⟩
  | _ => none
where
  number? (s : String) : Option Nat := (Numeral.natural? s).filter (· < 18446744073709551616)

def deliver (e : Endpoint) (d : Delivery) : Endpoint := { e with deliveries := e.deliveries ++ [d] }

/-- One line: a word that says what it is about, and what it says about it. -/
def Draft.line (d : Draft) (word rest : String) : Option Draft :=
  match word with
  | "" => some d
  | "socket" => do
    let n ← word? rest
    return d.change fun e => { e with portId := n }
  | "datagram" => do
    let b ← bytes? rest.toList
    return d.change fun e => deliver e (.datagram b)
  | "receive-error" => do
    let n ← errno? rest
    return d.change fun e => deliver e (.failure n)
  | "wait" => some (d.change fun e => deliver e .notReady)
  | "socket-error" => do
    let n ← errno? rest
    return d.change fun e => { e with openFault := some n }
  | "bind-error" => do
    let n ← errno? rest
    return d.change fun e => { e with bindFault := some n }
  | "send-error" => do
    let n ← errno? rest
    return d.change fun e => { e with sendFault := fun _ => some n }
  | "namespace" => do
    let id ← namespaceId? rest
    return d.withSide { d.side with identity := .ok id }
  | "namespace-error" => do
    let n ← errno? rest
    return d.withSide { d.side with identity := .error n }
  | "process" => do
    let pid ← Numeral.integer? rest
    return { d with processes := { pid } :: d.processes }
  | "command" => d.changeProcess fun p => { p with command := some rest }
  | "open-error" => do
    let n ← errno? rest
    d.changeProcess fun p => { p with openFault := some n }
  | "enter-error" => do
    let n ← errno? rest
    d.changeProcess fun p => { p with enterFault := some n }
  | "vanished" => d.changeProcess fun p => { p with vanished := true }
  | "table-error" => some { d with world := { d.world with tableFault := some rest } }
  | _ => none

def Draft.finish (d : Draft) : World := { d.world with processes := d.processes.reverse }

/-- Reads every line; the first that makes no sense is the error. -/
def read (lines : List String) : Except String World := do
  let draft ← lines.foldlM (fun (d : Draft) (text : String) =>
    let cs := text.toList
    let word := cs.takeWhile (· ≠ ' ')
    match d.line (String.ofList word) (String.ofList (cs.drop (word.length + 1))) with
    | some d => .ok d
    | none => .error text) {}
  return draft.finish

end VethPeer.Recording
