import IoTRepublic.Forwarding

/-!
Issuing addresses. A request is answered with an address made of a prefix and
the number of requests so far. The number is printed into an array of three
characters and copied out of it with the length of the prefix, which is four.
-/
namespace IoTRepublic.IpRequest

open CheckedArray DecimalText Package Manager Forwarding

/-- `prefix`. -/
def addressPrefix : List Byte := ascii "DEV."

/-- `sprintf(dst, "%d", x)` into an array with these contents. -/
def sprintfInto (dst : List Byte) (x : ℤ) : Exec (List Byte) := do
  let text ← sprintfInt dst.length x
  .ok (text ++ 0 :: dst.drop (text.length + 1))

/-- The automatic arrays of one call, before anything is stored in them. -/
structure Locals where
  suffix : CharArray 3
  newIp : CharArray 20
  buffer : CharArray MAXRECV

structure Reply where
  packageInfo : IoTPackage
  sent : Sent

/-- A call gives the new count and the reply. -/
def handleIpRequestPackage (clientSocket : Slot → IoTSocket) (ipCount : ℤ) (locals : Locals)
    (packageInfo : IoTPackage) : Exec (ℤ × Reply) := do
  let suffix ← sprintfInto locals.suffix.bytes ipCount
  let prefixLen : ℤ := addressPrefix.length
  let ipCount ← checkInt (ipCount + 1)
  let newIp ← charcat locals.newIp.bytes addressPrefix 0 prefixLen
  let newIp ← charcat newIp suffix prefixLen prefixLen
  let address ← cString 0 newIp
  let newPackageInfo ← createPackage generateIotPackage ServerIP address (ascii "0") 1
  let sent ← sendPackage clientSocket locals.buffer.bytes newPackageInfo packageInfo.belongSocketIdx
  .ok (ipCount, ⟨newPackageInfo, sent⟩)

/-- Requests answered one after the other. -/
def handleIpRequests (clientSocket : Slot → IoTSocket) :
    ℤ → List (Locals × IoTPackage) → Exec (List Reply)
  | _, [] => .ok []
  | ipCount, (locals, packageInfo) :: requests => do
    let (ipCount, reply) ← handleIpRequestPackage clientSocket ipCount locals packageInfo
    let replies ← handleIpRequests clientSocket ipCount requests
    .ok (reply :: replies)

/-- The replies to the first `n` requests after the start carry distinct addresses, the
`k`-th of them the prefix and the decimal of `k`. -/
def AddressesDistinct (n : ℕ) : Prop :=
  ∀ (clientSocket : Slot → IoTSocket) (requests : List (Locals × IoTPackage)),
    requests.length = n → (∀ r ∈ requests, ∃ i : Slot, r.2.belongSocketIdx = (i.val : ℤ)) →
    ∃ replies, handleIpRequests clientSocket 0 requests = .ok replies ∧
      (∀ (k : ℕ) (reply : Reply), replies[k]? = some reply →
        reply.packageInfo.desIp.ip.text = .ok (addressPrefix ++ ofInt (k : ℤ))) ∧
      (replies.map (fun reply => reply.packageInfo.desIp.ip)).Nodup ∧ replies.length = n

theorem sprintfInto_length {dst text : List Byte} {x : ℤ} (h : sprintfInto dst x = .ok text) :
    text.length = dst.length := by
  rcases bind_eq_ok.mp h with ⟨digits, hdigits, h⟩
  rcases sprintfInt_eq_ok.mp hdigits with ⟨hroom, rfl⟩
  obtain rfl := Except.ok.inj h
  simp only [List.length_append, List.length_cons, List.length_drop]
  omega

/-- The second copy always reads behind the printed number's array. -/
theorem handleIpRequestPackage_outside (clientSocket : Slot → IoTSocket) (ipCount : ℤ)
    (locals : Locals) (packageInfo : IoTPackage) (r : ℤ × Reply) :
    handleIpRequestPackage clientSocket ipCount locals packageInfo ≠ .ok r := by
  intro h
  rcases bind_eq_ok.mp h with ⟨suffix, hsuffix, h⟩
  rcases bind_eq_ok.mp h with ⟨_, -, h⟩
  rcases bind_eq_ok.mp h with ⟨newIp, -, h⟩
  rcases bind_eq_ok.mp h with ⟨copied, hcopied, -⟩
  have hsize : suffix.length = 3 := (sprintfInto_length hsuffix).trans locals.suffix.size
  have hlen : addressPrefix.length = 4 := by decide
  have hcopy : copyLoop suffix 4 0 (4 : ℕ) newIp = .ok copied := by
    rw [charcat, hlen] at hcopied
    exact hcopied
  have hbounds := copyLoop_bounds suffix 4 0 4 newIp copied hcopy (by decide)
  omega

theorem not_addressesDistinct_succ (k : ℕ) : ¬ AddressesDistinct (k + 1) := by
  intro hdistinct
  let request : Locals × IoTPackage :=
    (⟨CharArray.zero 3, CharArray.zero 20, CharArray.zero MAXRECV⟩,
      { generateIotPackage with belongSocketIdx := 0 })
  have hopen : ∀ r ∈ List.replicate (k + 1) request,
      ∃ i : Slot, r.2.belongSocketIdx = (i.val : ℤ) := by
    intro r hr
    rw [List.eq_of_mem_replicate hr]
    exact ⟨0, rfl⟩
  rcases hdistinct (fun _ => 4) _ List.length_replicate hopen with ⟨replies, hreplies, -⟩
  rw [List.replicate_succ] at hreplies
  rcases bind_eq_ok.mp hreplies with ⟨r, hr, -⟩
  exact handleIpRequestPackage_outside _ _ _ _ _ hr

/-- The very first request leaves its array, so no number of requests but zero is answered
as the addresses are meant. -/
theorem addressesDistinct_iff (n : ℕ) : AddressesDistinct n ↔ n = 0 := by
  cases n with
  | zero =>
    refine ⟨fun _ => rfl, ?_⟩
    intro _ clientSocket requests hlength _
    obtain rfl := List.length_eq_zero_iff.mp hlength
    exact ⟨[], rfl, by simp, by simp, rfl⟩
  | succ k =>
    refine ⟨fun h => absurd h (not_addressesDistinct_succ k), ?_⟩
    intro hzero
    exact absurd hzero (Nat.succ_ne_zero k)

/-- One request is enough. -/
theorem first_request_outside : ¬ AddressesDistinct 1 := not_addressesDistinct_succ 0

end IoTRepublic.IpRequest
