import IoTRepublic.Manager
import IoTRepublic.Registry

/-!
Forwarding a package. The manager renders the package again from its decoded
fields and sends it to the connection of the registered device, or tells the
sender that the device is gone. What is sent are the bytes that were received
exactly when the header was written the way `encode_package` writes it and the
package fits the send buffer.
-/
namespace IoTRepublic.Forwarding

open CheckedArray DecimalText Package PackageReader ReaderOutcome CreatedPackage JsFileParser
  Command Manager Registry

def ServerIP : List Byte := ascii "Master"

/-- One call of `send`. -/
structure Sent where
  socket : IoTSocket
  bytes : List Byte
  deriving DecidableEq

/-- `client_socket[idx]`. -/
def socketAt (clientSocket : Slot → IoTSocket) (idx : ℤ) : Exec IoTSocket :=
  if h : 0 ≤ idx ∧ idx.toNat < MAXCLIENTS then .ok (clientSocket ⟨idx.toNat, h.2⟩)
  else .error .readOutside

theorem socketAt_slot (clientSocket : Slot → IoTSocket) (i : Slot) :
    socketAt clientSocket (i.val : ℤ) = .ok (clientSocket i) := by
  have hin : 0 ≤ (i.val : ℤ) ∧ (i.val : ℤ).toNat < MAXCLIENTS := ⟨by omega, by simp⟩
  rw [socketAt, dif_pos hin]
  rfl

/-- The notice to the sender of a package whose destination is not registered. -/
def deleteNotice (jsonObj : JsonData) (packageInfo : IoTPackage) : Exec IoTPackage := do
  let ID ← CharArray.ofText COMMAND_CHAR_SIZE (ascii "Del_Dev")
  let destination ← packageInfo.desIp.ip.text
  let Value ← CharArray.ofText COMMAND_CHAR_SIZE destination
  let (cmdBuffer, cmdLen) ← encodeIotCmd jsonObj (List.replicate MAXPACKETSIZE 0)
    ⟨.management, ID, Value⟩ []
  let source ← packageInfo.sorIp.ip.text
  createPackage generateIotPackage ServerIP source cmdBuffer cmdLen

/-- `encode_package` into the buffer and `send` to the socket in the slot. -/
def sendPackage (clientSocket : Slot → IoTSocket) (sendBuffer : List Byte)
    (packageInfo : IoTPackage) (idx : ℤ) : Exec Sent := do
  let (sendBuffer, n) ← encodePackage sendBuffer packageInfo
  let socket ← socketAt clientSocket idx
  .ok ⟨socket, sendBuffer.take n⟩

/-- `jsonObj` and `sendBuffer` are the automatic arrays before anything is stored in them. -/
def handleForwardingPackage (devices : Devices) (clientSocket : Slot → IoTSocket)
    (jsonObj : JsonData) (sendBuffer : List Byte) (packageInfo : IoTPackage) : Exec Sent := do
  let destination ← packageInfo.desIp.ip.text
  match findDeviceWithIp devices destination with
  | none => do
    let sendPackageInfo ← deleteNotice jsonObj packageInfo
    sendPackage clientSocket sendBuffer sendPackageInfo packageInfo.belongSocketIdx
  | some deviceInfo => sendPackage clientSocket sendBuffer packageInfo deviceInfo.socketIndex

theorem sendPackage_eq_ok {clientSocket : Slot → IoTSocket} {sendBuffer : List Byte}
    {packageInfo : IoTPackage} {idx : ℤ} {sent : Sent} :
    sendPackage clientSocket sendBuffer packageInfo idx = .ok sent ↔
      Encodable sendBuffer.length packageInfo ∧ socketAt clientSocket idx = .ok sent.socket ∧
        sent.bytes = wireBytes packageInfo := by
  constructor
  · intro h
    rcases bind_eq_ok.mp h with ⟨s, hs, h⟩
    rcases (encodePackage_eq_ok sendBuffer packageInfo s).mp hs with ⟨henc, rfl⟩
    rcases bind_eq_ok.mp h with ⟨socket, hsocket, h⟩
    obtain rfl := Except.ok.inj h
    exact ⟨henc, hsocket, written_take sendBuffer _⟩
  · rintro ⟨henc, hsocket, hbytes⟩
    apply bind_eq_ok.mpr
    refine ⟨_, (encodePackage_eq_ok sendBuffer packageInfo _).mpr ⟨henc, rfl⟩, ?_⟩
    apply bind_eq_ok.mpr
    refine ⟨sent.socket, hsocket, ?_⟩
    exact congrArg (fun bytes => Except.ok (Sent.mk sent.socket bytes))
      ((written_take sendBuffer _).trans hbytes.symm)

/-- The header that is rendered from the fields decoded from `h`. -/
def rendered (h : Header) (q : IoTPackage) : Header where
  version := h.version
  headLen := ofInt q.headerLength
  dataLen := ofInt q.dataLength
  source := h.source
  destination := h.destination
  isFields := by
    have hfields := h.isFields
    simp only [Delimited.isFields_cons] at hfields ⊢
    rcases hfields with ⟨hver, hverSep, -, -, -, -, hrest⟩
    exact ⟨hver, hverSep, ofInt_ne_nil _, zero_notMem_ofInt _, ofInt_ne_nil _,
      zero_notMem_ofInt _, hrest⟩

section

variable {buffer data : List Byte} {h : Header} {p q : IoTPackage}

theorem headerFields_decoded (hq : Decodes h p q) : headerFields q = (rendered h q).fields := by
  simp only [headerFields, hq.verLength, hq.sorLength, hq.desLength, Int.toNat_natCast,
    CharArray.ofText_bytes hq.ver, CharArray.ofText_bytes hq.sor, CharArray.ofText_bytes hq.des]
  rfl

theorem dataOf_length (hin : DataInside buffer q) :
    (dataOf buffer q).length = q.dataLength.toNat := by
  have hstop := hin.stop
  unfold checksumAt at hstop
  rw [dataOf, List.length_take, List.length_drop]
  omega

/-- The package as it leaves the reader. -/
def withData (buffer : List Byte) (q : IoTPackage) (i : ℤ) : IoTPackage :=
  { q with data := dataOf buffer q, belongSocketIdx := i }

/-- What is sent for a decoded package is its rendered header and its data. -/
theorem wireBytes_decoded (hq : Decodes h p q) (hin : DataInside buffer q) (i : ℤ) :
    wireBytes (withData buffer q i) = packageBytes (rendered h q) (dataOf buffer q) := by
  have hfields : headerFields (withData buffer q i) = (rendered h q).fields := by
    change headerFields q = _
    exact headerFields_decoded hq
  have hdata : (withData buffer q i).data.take (withData buffer q i).dataLength.toNat =
      dataOf buffer q :=
    List.take_of_length_le (dataOf_length hin).le
  rw [wireBytes, summedBytes, hfields, hdata]
  rfl

/-- The received bytes are the header that was read and the data, when the header tells its
own length. -/
theorem take_packageTotalLen (hfront : h.bytes <+: buffer) (hin : DataInside buffer q)
    (hsum : ChecksumHolds buffer q) (hlen : q.headerLength = h.bytes.length)
    (hpos : 0 ≤ q.dataLength) :
    buffer.take (packageTotalLen q).toNat = packageBytes h (dataOf buffer q) := by
  rcases hfront with ⟨rest, rfl⟩
  have hat : checksumAt q = h.bytes.length + q.dataLength.toNat := by
    rw [checksumAt, hlen, Int.toNat_natCast]
  have hdata : dataOf (h.bytes ++ rest) q = rest.take q.dataLength.toNat := by
    rw [dataOf, hlen, Int.toNat_natCast, List.drop_left]
  have hsummed : h.bytes ++ dataOf (h.bytes ++ rest) q =
      (h.bytes ++ rest).take (checksumAt q) := by
    rw [hdata, hat, List.take_append]
    simp
  have htotal : (packageTotalLen q).toNat = checksumAt q + 2 := by
    rw [packageTotalLen, hat]
    omega
  rw [packageBytes, hsummed, htotal, List.take_add, hsum]

end

/-- A package as the receive loop hands it over. -/
def Received (p : IoTPackage) : Prop :=
  ∃ (buffer : List Byte) (bufferLength : ℤ) (r : Reading) (i : Slot), 0 ≤ bufferLength ∧
    bufferLength ≤ buffer.length ∧
    getCompletedPackage buffer bufferLength generateIotPackage = .ok r ∧ r.result = .completed ∧
    p = { r.packageInfo with belongSocketIdx := i.val }

/-- What the handlers rely on of a package that the receive loop hands over. -/
theorem Received.fields {p : IoTPackage} (hp : Received p) :
    p.data.length = p.dataLength.toNat ∧
      (∃ source, IsAddress source ∧ p.sorIp.ip.text = .ok source) ∧
      ∃ i : Slot, p.belongSocketIdx = i.val := by
  obtain ⟨buffer, bufferLength, r, i, h0, hcap, hread, hcompleted, rfl⟩ := hp
  have houtcome := outcome_of_ok h0 hcap hread
  cases houtcome with
  | completed h q hwhole hq hfit henough hin hsum hpos =>
    have hfields := h.isFields
    simp only [Delimited.isFields_cons] at hfields
    obtain ⟨-, -, -, -, -, -, hne, hsep, -⟩ := hfields
    have hroom := (CharArray.ofText_eq_ok.mp hq.sor).1
    have haddress : IsAddress h.source := ⟨hne, hsep, Nat.le_of_succ_le_succ hroom⟩
    exact ⟨dataOf_length hin, ⟨h.source, haddress, CharArray.ofText_text hq.sor hsep⟩, i, rfl⟩
  | short _ => cases hcompleted
  | invalid _ _ => cases hcompleted
  | headerUnfinished _ _ _ => cases hcompleted
  | dataUnfinished h q _ _ _ _ => cases hcompleted
  | corrupt h q _ _ _ _ _ _ => cases hcompleted

/-- The header is written the way `encode_package` writes it, for `n` data bytes, and the
package fits the send buffer. -/
structure Canonical (h : Header) (n : ℕ) : Prop where
  headLen : h.headLen = ofInt h.bytes.length
  dataLen : h.dataLen = ofInt n
  fits : h.bytes.length + n + 2 ≤ MAXPACKETSIZE

section

variable {buffer : List Byte} {h : Header} {p q : IoTPackage} {n : ℕ}

theorem Canonical.lengths (hcanon : Canonical h n) (hq : Decodes h p q) :
    q.headerLength = h.bytes.length ∧ q.dataLength = n ∧ rendered h q = h := by
  have hfits := hcanon.fits
  have hmax : MAXPACKETSIZE = 1024 := rfl
  have hhead : q.headerLength = h.bytes.length := by
    have hread := hq.headerLength
    rw [hcanon.headLen, atoi_tempOf _ (by omega)] at hread
    exact (Except.ok.inj hread).symm
  have hdata : q.dataLength = n := by
    have hread := hq.dataLength
    rw [hcanon.dataLen, atoi_tempOf _ (by omega)] at hread
    exact (Except.ok.inj hread).symm
  refine ⟨hhead, hdata, ?_⟩
  rw [rendered]
  simp only [hhead, hdata, ← hcanon.headLen, ← hcanon.dataLen]

theorem Decodes.retarget (hq : Decodes h p q) (p' : IoTPackage) :
    Decodes h p' (withHeader p' q) :=
  ⟨hq.ver, hq.verLength, hq.headLen, hq.headerLength, hq.dataLen, hq.dataLength, hq.sor,
    hq.sorLength, hq.des, hq.desLength, rfl, rfl⟩

/-- The bytes that a manager sends are those it received, they fit its buffer, and whoever
receives them decodes the same addresses and data. -/
structure Faithful (received : List Byte) (sent : Exec Sent) (socket : IoTSocket)
    (packageInfo : IoTPackage) : Prop where
  emits : sent = .ok ⟨socket, received⟩
  fits : received.length ≤ MAXPACKETSIZE
  decoded : ∀ (rest : List Byte) (n : ℤ) (p' : IoTPackage), received.length ≤ n →
    n ≤ (received ++ rest).length → n ≤ 2147483647 →
    ∃ r, getCompletedPackage (received ++ rest) n p' = .ok r ∧ r.result = .completed ∧
      r.packageInfo.sorIp = packageInfo.sorIp ∧ r.packageInfo.desIp = packageInfo.desIp ∧
      r.packageInfo.data = packageInfo.data

/-- A header that is not canonical is not rendered as it was, or not read alike behind other
bytes. -/
private theorem canonical_of_sent {bufferLength i : ℤ} (hcap : bufferLength ≤ buffer.length)
    (hwhole : WholeHeader buffer bufferLength h) (hq : Decodes h p q)
    (henough : packageTotalLen q ≤ bufferLength) (hin : DataInside buffer q)
    (hpos : 0 ≤ packageTotalLen q) {r : Reading}
    (hsent : buffer.take (packageTotalLen q).toNat = wireBytes (withData buffer q i))
    (hfits : (buffer.take (packageTotalLen q).toNat).length ≤ MAXPACKETSIZE)
    (hread : getCompletedPackage (buffer.take (packageTotalLen q).toNat)
      (buffer.take (packageTotalLen q).toNat).length p = .ok r)
    (hcompleted : r.result = .completed) : ∃ n, Canonical h n := by
  have hlength : (buffer.take (packageTotalLen q).toNat).length = (packageTotalLen q).toNat := by
    rw [List.length_take]
    omega
  have hmax : MAXPACKETSIZE = 1024 := rfl
  have hbegins : (rendered h q).bytes <+: buffer.take (packageTotalLen q).toNat := by
    rw [hsent, wireBytes_decoded hq hin, packageBytes, List.append_assoc]
    exact List.prefix_append ..
  have hsame : rendered h q = h :=
    header_unique (hbegins.trans (List.take_prefix ..)) hwhole.front
  have htotal : (packageTotalLen q).toNat = h.bytes.length + q.dataLength.toNat + 2 := by
    rw [← hlength, hsent, wireBytes_decoded hq hin, packageBytes_length, dataOf_length hin, hsame]
  have hdata : 0 ≤ q.dataLength := by
    have hout := (getCompletedPackage_eq_ok (by omega) le_rfl (by omega)).mp hread
    cases hout <;> simp only [reduceCtorEq] at hcompleted
    rename_i h' q' hwhole' hq' hfit' henough' hin' hsum' hpos'
    have hsame' : h' = h :=
      header_unique (hwhole'.front.trans (List.take_prefix ..)) hwhole.front
    subst hsame'
    have hstart := hin'.start
    have hstop := hin'.stop
    have hheadEq := Except.ok.inj (hq'.headerLength.symm.trans hq.headerLength)
    have hdataEq := Except.ok.inj (hq'.dataLength.symm.trans hq.dataLength)
    rw [hlength, checksumAt, hheadEq, hdataEq, packageTotalLen] at hstop
    omega
  have hhead : q.headerLength = h.bytes.length := by
    rw [packageTotalLen] at htotal hpos
    omega
  refine ⟨q.dataLength.toNat, ?_, ?_, by omega⟩
  · rw [← hhead]
    exact (congrArg Header.headLen hsame).symm
  · rw [Int.toNat_of_nonneg hdata]
    exact (congrArg Header.dataLen hsame).symm

/-- A package with a canonical header can be encoded, to the bytes that were received. -/
private theorem Canonical.sent (hcanon : Canonical h n) (hfront : h.bytes <+: buffer)
    (hq : Decodes h p q) (hin : DataInside buffer q) (hsum : ChecksumHolds buffer q) (i : ℤ) :
    Encodable MAXPACKETSIZE (withData buffer q i) ∧
      buffer.take (packageTotalLen q).toNat = packageBytes h (dataOf buffer q) ∧
      wireBytes (withData buffer q i) = packageBytes h (dataOf buffer q) := by
  rcases hcanon.lengths hq with ⟨hhead, hdata, hsame⟩
  have hfits := hcanon.fits
  have hmax : MAXPACKETSIZE = 1024 := rfl
  have hwire : wireBytes (withData buffer q i) = packageBytes h (dataOf buffer q) := by
    rw [wireBytes_decoded hq hin, hsame]
  have hver := (CharArray.ofText_eq_ok.mp hq.ver).1
  have hsor := (CharArray.ofText_eq_ok.mp hq.sor).1
  have hdes := (CharArray.ofText_eq_ok.mp hq.des).1
  have hdigits : ∀ k : ℕ, k < 10000 → (ofInt (k : ℤ)).length ≤ 4 :=
    fun k hk => ofNat_length_le (by decide) hk
  have hdataLength := dataOf_length hin
  refine ⟨⟨?_, ?_, ?_, ?_, ?_, hdataLength.ge, ?_⟩,
    take_packageTotalLen hfront hin hsum hhead (by omega), hwire⟩
  · change q.verLength.toNat ≤ VERSION_CHAR_SIZE
    rw [hq.verLength]
    omega
  · change (ofInt q.headerLength).length ≤ 4
    rw [hhead]
    exact hdigits _ (by omega)
  · change (ofInt q.dataLength).length ≤ 4
    rw [hdata]
    exact hdigits _ (by omega)
  · change q.sorIp.ipLength.toNat ≤ IP_ADDR_SIZE
    rw [hq.sorLength]
    omega
  · change q.desIp.ipLength.toNat ≤ IP_ADDR_SIZE
    rw [hq.desLength]
    omega
  · rw [hwire, packageBytes_length, hdataLength, hdata]
    omega

/-- For a package that the reader delivers and a registered destination: the manager sends
exactly the bytes that the reader consumed, inside its buffer and to the same effect, if and
only if the header was canonical. -/
theorem forwarding_faithful {bufferLength : ℤ} {r : Reading} (h0 : 0 ≤ bufferLength)
    (hcap : bufferLength ≤ buffer.length) (hint : bufferLength ≤ 2147483647)
    (hread : getCompletedPackage buffer bufferLength p = .ok r)
    (hcompleted : r.result = .completed) {devices : Devices} {clientSocket : Slot → IoTSocket}
    {sendBuffer destination : List Byte} {d : IoTDeviceInfo} {socket : IoTSocket}
    (jsonObj : JsonData) (hsize : sendBuffer.length = MAXPACKETSIZE)
    (hdes : r.packageInfo.desIp.ip.text = .ok destination)
    (hfound : findDeviceWithIp devices destination = some d)
    (hsocket : socketAt clientSocket d.socketIndex = .ok socket) (i : ℤ) :
    Faithful (buffer.take (bufferLength - r.bufferLength).toNat)
        (handleForwardingPackage devices clientSocket jsonObj sendBuffer
          { r.packageInfo with belongSocketIdx := i }) socket r.packageInfo ↔
      ∃ (h : Header) (n : ℕ), h.bytes <+: buffer ∧ Canonical h n := by
  have hout := (getCompletedPackage_eq_ok h0 hcap hint).mp hread
  cases hout <;> simp only [reduceCtorEq] at hcompleted
  rename_i h q hwhole hq hfit henough hin hsum hpos
  have hconsumed : bufferLength - (bufferLength - packageTotalLen q) = packageTotalLen q := by
    omega
  have hhandle : handleForwardingPackage devices clientSocket jsonObj sendBuffer
      (withData buffer q i) =
      sendPackage clientSocket sendBuffer (withData buffer q i) d.socketIndex := by
    have hdes' : (withData buffer q i).desIp.ip.text = .ok destination := hdes
    rw [handleForwardingPackage, hdes', ok_bind, hfound]
  simp only [hconsumed]
  change Faithful _ (handleForwardingPackage devices clientSocket jsonObj sendBuffer
    (withData buffer q i)) _ _ ↔ _
  rw [hhandle]
  constructor
  · intro hfaithful
    rcases sendPackage_eq_ok.mp hfaithful.emits with ⟨-, -, hbytes⟩
    rcases hfaithful.decoded [] _ p le_rfl (by simp) (by
      have := hfaithful.fits
      have hmax : MAXPACKETSIZE = 1024 := rfl
      omega) with ⟨r', hread', hcompleted', -⟩
    rw [List.append_nil] at hread'
    rcases canonical_of_sent hcap hwhole hq henough hin hpos hbytes hfaithful.fits hread'
      hcompleted' with ⟨n, hcanon⟩
    exact ⟨h, n, hwhole.front, hcanon⟩
  · rintro ⟨h', n, hfront', hcanon⟩
    obtain rfl := header_unique hfront' hwhole.front
    rcases hcanon.lengths hq with ⟨hhead, hdata, -⟩
    rcases hcanon.sent hwhole.front hq hin hsum i with ⟨henc, htake, hwire⟩
    have hversion := hwhole.version_prefix
    refine ⟨sendPackage_eq_ok.mpr ⟨hsize ▸ henc, hsocket, ?_⟩, ?_, ?_⟩
    · rw [htake, hwire]
    · rw [htake, ← hwire]
      exact henc.fits
    · intro rest k p' henough' hcap' hint'
      rw [htake] at henough' hcap' ⊢
      have hagain := Decodes.retarget hq p'
      exact ⟨_, getCompletedPackage_front hversion hagain hhead
        (hdata.trans (by rw [dataOf_length hin, hdata, Int.toNat_natCast])) rest k henough' hcap'
        hint', rfl, rfl, rfl, rfl⟩

end

theorem addressB_length : (ascii "B" ++ List.replicate 14 0).length = IP_ADDR_SIZE := by decide

def deviceB : IoTDeviceInfo where
  ip := ⟨ascii "B" ++ List.replicate 14 0, addressB_length⟩
  socketIndex := 0
  funGroup := []
  devID := []
  devDesc := []
  proxied := 0

def onlyB : Devices := Function.update noDevices 0 (some deviceB)

theorem findDeviceWithIp_only {d : IoTDeviceInfo} {iotip : List Byte}
    (hip : d.ip.text = .ok iotip) :
    findDeviceWithIp (Function.update noDevices 0 (some d)) iotip = some d := by
  have hfirst : Function.update noDevices 0 (some d) 0 = some d :=
    Function.update_self (0 : DeviceIndex) (some d) noDevices
  rw [findDeviceWithIp, findDeviceIndexWithIpstr_only 0 hip]
  exact hfirst

theorem findDeviceWithIp_onlyB : findDeviceWithIp onlyB (ascii "B") = some deviceB :=
  findDeviceWithIp_only (by decide)

def longData : List Byte := List.replicate 1010 120

/-- A package from `create_package` that the receive buffer holds and the send buffer does
not: the manager reads it and then writes behind the send buffer. -/
theorem forwarding_overflows :
    ∃ q, createPackage generateIotPackage (ascii "A") (ascii "B") longData longData.length =
        .ok q ∧ (wireBytes q).length ≤ MAXRECV ∧
      ∃ r, getCompletedPackage (wireBytes q) (wireBytes q).length generateIotPackage = .ok r ∧
        r.result = .completed ∧ ∀ sent, handleForwardingPackage onlyB (fun _ => 4) ⟨[], [], 0, 0⟩
          (List.replicate MAXPACKETSIZE 0) { r.packageInfo with belongSocketIdx := 0 } ≠
            .ok sent := by
  have hcreate : createPackage generateIotPackage (ascii "A") (ascii "B") longData
      longData.length = .ok (packageInfoAB 20 longData) := by
    decide +kernel
  have hq := createPackage_eq_ok.mp hcreate
  have hlen : (wireBytes (packageInfoAB 20 longData)).length = 1032 := by decide +kernel
  have hread := hq.completed isAddress_A isAddress_B generateIotPackage []
    (wireBytes (packageInfoAB 20 longData)).length le_rfl (by simp) (by omega)
  rw [List.append_nil] at hread
  refine ⟨_, hcreate, hlen.le.trans (by decide), _, hread, rfl, ?_⟩
  intro sent hsent
  have hdes : (packageInfoAB 20 longData).desIp.ip.text = .ok (ascii "B") := by decide
  rw [handleForwardingPackage, hdes, ok_bind, findDeviceWithIp_onlyB] at hsent
  have hfits := (sendPackage_eq_ok.mp hsent).1.fits
  rw [List.length_replicate] at hfits
  have hwire : (wireBytes (packageInfoAB 20 longData)).length ≤ MAXPACKETSIZE := hfits
  exact absurd hwire (by rw [hlen]; decide)

def headerAB : Header where
  version := CurrentVersion
  headLen := ascii "17"
  dataLen := ascii "1"
  source := ascii "A"
  destination := ascii "B"
  isFields := by
    simp only [Delimited.isFields_cons]
    exact ⟨by decide, by decide, by decide, by decide, by decide, by decide, by decide, by decide,
      by decide, by decide, Delimited.IsFields.nil _⟩

/-- A small package whose header is canonical reaches the device as it came. -/
theorem forwarding_faithful_small :
    Faithful (packageBytes headerAB [120])
      (handleForwardingPackage onlyB (fun _ => 4) ⟨[], [], 0, 0⟩ (List.replicate MAXPACKETSIZE 0)
        { packageInfoAB 17 [120] with belongSocketIdx := 0 }) 4 (packageInfoAB 17 [120]) := by
  have hread : getCompletedPackage (packageBytes headerAB [120]) 20 generateIotPackage =
      .ok ⟨.completed, List.replicate 20 0, 0, packageInfoAB 17 [120]⟩ := by
    decide +kernel
  have hfront : headerAB.bytes <+: packageBytes headerAB [120] := by
    decide
  have hcanon : Canonical headerAB 1 := ⟨by decide, by decide, by decide⟩
  have hdes : (packageInfoAB 17 [120]).desIp.ip.text = .ok (ascii "B") := by decide
  have hsocket : socketAt (fun _ => 4) deviceB.socketIndex = .ok 4 := rfl
  have hlen : (20 : ℤ) ≤ (packageBytes headerAB [120]).length := by decide
  have htake : (packageBytes headerAB [120]).take ((20 : ℤ) - 0).toNat =
      packageBytes headerAB [120] := by
    decide
  have hsize : (List.replicate MAXPACKETSIZE (0 : Byte)).length = MAXPACKETSIZE :=
    List.length_replicate
  have hfaithful := (forwarding_faithful (by decide) hlen (by decide) hread rfl ⟨[], [], 0, 0⟩ hsize
    hdes findDeviceWithIp_onlyB hsocket 0).mpr ⟨headerAB, 1, hfront, hcanon⟩
  rw [htake] at hfaithful
  exact hfaithful

end IoTRepublic.Forwarding
