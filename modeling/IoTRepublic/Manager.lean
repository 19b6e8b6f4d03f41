import IoTRepublic.CreatedPackage
import Mathlib.Data.Fintype.Basic

/-!
The receiving side of the manager: the table of client sockets, one package
buffer for each slot of it, and what the main loop does when a client connects,
when bytes arrive and when a client goes. The packages handed to
`handle_package` are the output of a step; handling one changes neither the
table nor a buffer.
-/
namespace IoTRepublic.Manager

open CheckedArray Package PackageReader

abbrev MAXRECV : ℕ := 2000
abbrev MAXCLIENTS : ℕ := 30

abbrev IoTSocket := ℕ
abbrev Slot := Fin MAXCLIENTS

structure PackageBuffer where
  tempBuffer : List Byte
  receiveCount : ℤ
  deriving DecidableEq

def generatePackageBuffer : PackageBuffer := ⟨List.replicate MAXRECV 0, 0⟩

/-- The client table; a slot holding socket 0 is free. -/
structure ServerState where
  clientSocket : Slot → IoTSocket
  packageBuffer : Slot → Option PackageBuffer

def initServerInfo : ServerState := ⟨fun _ => 0, fun _ => none⟩

def freeSlot (clientSocket : Slot → IoTSocket) : Option Slot :=
  (List.finRange MAXCLIENTS).find? (fun i => clientSocket i = 0)

/-- A connection that finds no free slot is accepted and then forgotten. -/
def acceptClient (s : ServerState) (newSocket : IoTSocket) : ServerState :=
  match freeSlot s.clientSocket with
  | none => s
  | some i =>
    { clientSocket := Function.update s.clientSocket i newSocket
      packageBuffer := Function.update s.packageBuffer i (some generatePackageBuffer) }

def closeClient (s : ServerState) (i : Slot) : ServerState where
  clientSocket := Function.update s.clientSocket i 0
  packageBuffer := Function.update s.packageBuffer i none

def charcat (baseBuf target : List Byte) (starIdx length : ℤ) : Exec (List Byte) :=
  copyLoop target length.toNat 0 starIdx baseBuf

/-- `buffer` after `memset` and a `recv` of the given bytes. -/
def recvBuffer (received : List Byte) : List Byte :=
  received ++ List.replicate (MAXRECV - received.length) 0

def storeReceived (b : PackageBuffer) (received : List Byte) : Exec PackageBuffer :=
  if b.receiveCount + received.length > MAXRECV then do
    let tempBuffer ← memset b.tempBuffer 0 MAXRECV
    .ok ⟨tempBuffer, 0⟩
  else do
    let tempBuffer ← charcat b.tempBuffer (recvBuffer received) b.receiveCount received.length
    .ok ⟨tempBuffer, b.receiveCount + received.length⟩

/-- The `do … while` loop: the packages passed to `handle_package`, in order. -/
def drainLoop (i : ℤ) : ℕ → PackageBuffer → Exec (PackageBuffer × List IoTPackage)
  | 0, _ => .error .unfinished
  | fuel + 1, b => do
    let r ← getCompletedPackage b.tempBuffer b.receiveCount generateIotPackage
    let b := ⟨r.buffer, r.bufferLength⟩
    if r.result = .completed then do
      let (b, calls) ← drainLoop i fuel b
      .ok (b, { r.packageInfo with belongSocketIdx := i } :: calls)
    else .ok (b, [])

/-- `recv` returned the given bytes, none when the other side has gone. -/
def readClient (fuel : ℕ) (s : ServerState) (i : Slot) (received : List Byte) :
    Exec (ServerState × List IoTPackage) :=
  if received = [] then .ok (closeClient s i, [])
  else
    match s.packageBuffer i with
    | none => .error .readOutside
    | some b => do
      let b ← storeReceived b received
      let (b, calls) ← drainLoop (i.val : ℤ) fuel b
      .ok ({ s with packageBuffer := Function.update s.packageBuffer i (some b) }, calls)

inductive Event
  | accept (newSocket : IoTSocket)
  | readable (i : Slot) (received : List Byte)

/-- A free slot is in no descriptor set, so nothing is ever read for it. -/
def mainServerLoop (fuel : ℕ) (s : ServerState) : Event → Exec (ServerState × List IoTPackage)
  | .accept newSocket => .ok (acceptClient s newSocket, [])
  | .readable i received =>
    if s.clientSocket i = 0 then .ok (s, []) else readClient fuel s i received

theorem freeSlot_eq_some {clientSocket : Slot → IoTSocket} {i : Slot}
    (h : freeSlot clientSocket = some i) : clientSocket i = 0 := by
  simpa using List.find?_some h

theorem freeSlot_lowest {clientSocket : Slot → IoTSocket} {i j : Slot}
    (h : freeSlot clientSocket = some i) (hj : j < i) : clientSocket j ≠ 0 := by
  obtain ⟨-, as, bs, hsplit, hbefore⟩ := List.find?_eq_some_iff_append.mp h
  have hmem : j ∈ as := by
    have hsorted : (List.finRange MAXCLIENTS).Pairwise (· < ·) := List.pairwise_lt_finRange _
    rw [hsplit] at hsorted
    have hj' : j ∈ as ++ i :: bs := hsplit ▸ List.mem_finRange j
    rcases List.mem_append.mp hj' with hmem | hmem
    · exact hmem
    · have hbehind := (List.pairwise_cons.mp (List.pairwise_append.mp hsorted).2.1).1
      rcases List.mem_cons.mp hmem with rfl | hmem
      · exact absurd hj (lt_irrefl _)
      · exact absurd (hbehind j hmem) (lt_asymm hj)
  simpa using hbefore j hmem

end IoTRepublic.Manager
