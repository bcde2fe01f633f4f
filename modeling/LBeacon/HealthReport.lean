import LBeacon.Lib.CFile
import LBeacon.SendReport
import LBeacon.TrimTail
import LBeacon.Tracking

/-!
# The health report

`handle_health_report` with the two files that it reads, the buffers that it puts them together
in, and the send queue.
-/

open CText CMemory

namespace LBeacon

def fileOpenRetry : Nat := 5
def selfCheckErrorOpenFile : Int := 9999

/-! ## The text about the beacon -/

/-- `from_beacon;poll_type;BOT_GATEWAY_API_VERSION_LATEST;`, then the UUID, the time and the
address. -/
def pollInfoText (pollType : Int) (cfg : Config) (now : Int32) : Str :=
  "8;".toList ++ intText pollType ++ ";1.3;".toList ++ cfg.uuid ++ [';'] ++
    (intText now.toInt).take (lengthOfEpochTime - 1) ++ [';'] ++ cfg.localAddr ++ [';']

theorem basicInfoText_eq (cfg : Config) (now : Int32) :
    basicInfoText cfg now = pollInfoText trackedObjectData cfg now := by
  have hhead : "8;".toList ++ intText trackedObjectData ++ ";1.3;".toList = "8;4;1.3;".toList := by
    decide
  unfold basicInfoText pollInfoText
  rw [hhead]

/-! ## The files -/

/-- The loop that opens a file and reads its first line, with what is left of `retry_times`.
`buf` is the buffer, and `below` what lies in front of it. A file that cannot be opened is
`none`. -/
def readFirstLine (below : Int → Char) (file : Option Str) : Nat → Str → Watched Str
  | 0, _ => return intText selfCheckErrorOpenFile
  | retryTimes + 1, buf =>
    match file with
    | none => readFirstLine below file retryTimes buf
    | some content => do
      let buf := (fgets wifiMessageLength content).1.getD buf
      let buf ← trimAt below buf 0
      if strlen buf > 0 then return buf
      readFirstLine below file retryTimes buf

/-- What the call finds: the two files, the memory in front of `self_check_buf` and `version_buf`,
and the time. -/
structure HealthWorld where
  selfCheckFile : Option Str
  versionFile : Option Str
  selfCheckBelow : Int → Char
  versionBelow : Int → Char
  now : Int32

def handleHealthReport (c : Codec) (cfg : Config) (gatewayAddr : Str) (gatewayPort : Nat)
    (w : HealthWorld) (q : PktQueue) : Watched (ErrorCode × PktQueue) := do
  let selfCheckBuf ← readFirstLine w.selfCheckBelow w.selfCheckFile fileOpenRetry []
  let versionBuf ← readFirstLine w.versionBelow w.versionFile fileOpenRetry []
  let message := pollInfoText beaconHealthReport cfg w.now
  if message.length > maxLengthRespBasicInfo then return (.ePrepareResponseBasicInfo, q)
  let messageTemp ← strcpy wifiMessageLength (selfCheckBuf ++ [';'] ++ versionBuf ++ [';'])
  if wifiMessageLength ≤ message.length + messageTemp.length then return (.eBufferSize, q)
  let message ← strcat wifiMessageLength message messageTemp
  let r ← udpAddpkt c q (Ptr.ofBuf gatewayAddr networkAddrLength) gatewayPort
    (Ptr.ofBuf message wifiMessageLength)
  return (.workSuccessfully, r.2)

/-! ## What the files say -/

/-- The first line as it comes to its buffer. -/
def fileLine (content : Str) : Str := cstr ((fgets wifiMessageLength content).1.getD [])

/-- The first line without its trailing blanks, or 9999. -/
def fileText (file : Option Str) : Str :=
  match file with
  | none => intText selfCheckErrorOpenFile
  | some content =>
    if trimmed (fileLine content) = [] then intText selfCheckErrorOpenFile
    else trimmed (fileLine content)

/-- The first line is empty or says something. -/
def LineOk (file : Option Str) : Prop :=
  ∀ content ∈ file, fileLine content = [] ∨ ∃ c ∈ fileLine content, isBlank c = false

theorem nul_notMem_trimmed (s : Str) : NUL ∉ trimmed (cstr s) := fun h =>
  nul_notMem_cstr s ((List.rdropWhile_prefix _ _).subset h)

/-- Every attempt reads the same, so the loop ends at the first one or gives up. -/
theorem readFirstLine_eq (below : Int → Char) {file : Option Str} (hline : LineOk file) (n : Nat) :
    readFirstLine below file (n + 1) [] = pure (fileText file) := by
  unfold fileText
  cases file with
  | none =>
    induction n with
    | zero => rfl
    | succ n ih => exact ih
  | some content =>
    have htrim : trimAt below ((fgets wifiMessageLength content).1.getD []) 0 =
        pure (trimmed (fileLine content)) := trimAt_keeps (hline content rfl)
    have hnul : cstr (trimmed (fileLine content)) = trimmed (fileLine content) :=
      cstr_eq_self (nul_notMem_trimmed _)
    have hround (k : Nat) : readFirstLine below (some content) (k + 1) [] =
        if trimmed (fileLine content) = [] then readFirstLine below (some content) k []
        else pure (trimmed (fileLine content)) := by
      rw [readFirstLine]
      simp only [htrim, watched_pure_bind, strlen, hnul]
      by_cases hnil : trimmed (fileLine content) = []
      · simp [hnil]
      · simp [hnil, List.length_pos_iff.mpr hnil]
    induction n with
    | zero =>
      rw [hround]
      by_cases hnil : trimmed (fileLine content) = []
      · simp only [hnil, if_true]
        rfl
      · simp only [hnil, if_false]
    | succ n ih =>
      rw [hround]
      by_cases hnil : trimmed (fileLine content) = []
      · rw [if_pos hnil]
        exact ih
      · simp only [hnil, if_false]

/-- A line of nothing but blanks is looked at in front of its buffer. -/
theorem readFirstLine_faults (below : Int → Char) {file : Option Str} {n : Nat}
    (hf : (readFirstLine below file (n + 1) []).faults = []) : LineOk file := by
  intro content hcontent
  obtain rfl : file = some content := hcontent
  rw [readFirstLine] at hf
  simp only [faults_bind, List.append_eq_nil_iff] at hf
  exact trimAt_front_iff.mp hf.1

/-! ## The report -/

def healthText (cfg : Config) (w : HealthWorld) : Str :=
  pollInfoText beaconHealthReport cfg w.now ++
    (fileText w.selfCheckFile ++ [';'] ++ fileText w.versionFile ++ [';'])

/-- The report is in the queue, or it is too long for a message and the caller is told so. -/
structure HealthDelivered (c : Codec) (cfg : Config) (gatewayAddr : Str) (gatewayPort : Nat)
    (w : HealthWorld) (q : PktQueue) (pkts : List SPkt) (r : Watched (ErrorCode × PktQueue)) :
    Prop where
  safe : r.faults = []
  outcome : r.value.1 = .workSuccessfully ∧ (healthText cfg w).length < wifiMessageLength ∧
      r.value.2.Holds (pkts ++ [framedPkt (Ptr.ofBuf gatewayAddr networkAddrLength) gatewayPort
        (c.sealed (healthText cfg w)) (c.sealed (healthText cfg w)).length]) ∨
    r.value.1 = .eBufferSize ∧ wifiMessageLength ≤ (healthText cfg w).length ∧ r.value.2 = q

variable {c : Codec} {cfg : Config} {gatewayAddr : Str} {gatewayPort : Nat} {w : HealthWorld}
  {q : PktQueue} {pkts : List SPkt}

theorem accepts_ofBuf (q : PktQueue) (address : Str) :
    q.Accepts (Ptr.ofBuf address networkAddrLength) ↔ q.isFree = false ∧ q.isFull = false := by
  have hfits := (Ptr.ofBuf address networkAddrLength).fits
  rw [room_ofBuf] at hfits
  unfold PktQueue.Accepts Ptr.Terminated
  rw [room_ofBuf]
  constructor
  · rintro ⟨hopen, hroom, -⟩
    exact ⟨hopen, hroom⟩
  · rintro ⟨hopen, hroom⟩
    exact ⟨hopen, hroom, by omega, hfits⟩

theorem nul_notMem_fileText (file : Option Str) : NUL ∉ fileText file := by
  unfold fileText
  split
  · exact nul_notMem_intText _
  · split
    · exact nul_notMem_intText _
    · exact nul_notMem_trimmed _

theorem nul_notMem_healthText (huuid : NUL ∉ cfg.uuid) (haddr : NUL ∉ cfg.localAddr) :
    NUL ∉ healthText cfg w := by
  have hhead : NUL ∉ "8;".toList := by decide
  have hversion : NUL ∉ ";1.3;".toList := by decide
  have hdelim : NUL ∉ [';'] := by decide
  have htime (n : Int) (k : Nat) : NUL ∉ (intText n).take k :=
    fun h => nul_notMem_intText n (List.mem_of_mem_take h)
  unfold healthText pollInfoText
  simp only [List.mem_append, not_or]
  simp only [hhead, hversion, huuid, haddr, hdelim, htime, nul_notMem_intText,
    nul_notMem_fileText, not_false_eq_true, and_self]

theorem handleHealthReport_eq (hself : LineOk w.selfCheckFile) (hversion : LineOk w.versionFile) :
    handleHealthReport c cfg gatewayAddr gatewayPort w q =
      if (pollInfoText beaconHealthReport cfg w.now).length > maxLengthRespBasicInfo then
        pure (.ePrepareResponseBasicInfo, q)
      else do
        let messageTemp ← strcpy wifiMessageLength
          (fileText w.selfCheckFile ++ [';'] ++ fileText w.versionFile ++ [';'])
        if wifiMessageLength ≤
            (pollInfoText beaconHealthReport cfg w.now).length + messageTemp.length then
          return (.eBufferSize, q)
        let message ←
          strcat wifiMessageLength (pollInfoText beaconHealthReport cfg w.now) messageTemp
        let r ← udpAddpkt c q (Ptr.ofBuf gatewayAddr networkAddrLength) gatewayPort
          (Ptr.ofBuf message wifiMessageLength)
        return (.workSuccessfully, r.2) := by
  unfold handleHealthReport fileOpenRetry
  rw [readFirstLine_eq _ hself, readFirstLine_eq _ hversion]
  rfl

theorem health_sent_iff (hc : c.Sound) (h : q.Holds pkts) {message : Str}
    (hsend : Sendable message) :
    (udpAddpkt c q (Ptr.ofBuf gatewayAddr networkAddrLength) gatewayPort
        (Ptr.ofBuf message wifiMessageLength)).faults = [] ∧
      (udpAddpkt c q (Ptr.ofBuf gatewayAddr networkAddrLength) gatewayPort
        (Ptr.ofBuf message wifiMessageLength)).value.2.Holds
          (pkts ++ [framedPkt (Ptr.ofBuf gatewayAddr networkAddrLength) gatewayPort
            (c.sealed message) (c.sealed message).length]) ↔
      q.isFree = false ∧ q.isFull = false := by
  have htext : (Ptr.ofBuf message wifiMessageLength).text = message := by
    rw [text_ofBuf hsend.2.le, cstr_eq_self hsend.1]
  have hterm : (Ptr.ofBuf message wifiMessageLength).Terminated := by
    rw [Ptr.Terminated, htext, room_ofBuf]
    exact hsend.2
  have hfits : (c.sealed (Ptr.ofBuf message wifiMessageLength).text).length <
      lengthOfEncodedWifiMessage := by
    rw [htext]
    exact hc.sealed_length hsend
  have hreports := encoding_reports c h (Ptr.ofBuf gatewayAddr networkAddrLength) gatewayPort
    (Ptr.ofBuf message wifiMessageLength)
  rw [accepts_ofBuf, iff_true_intro hterm, iff_true_intro hfits, true_and, true_and, htext]
    at hreports
  rw [← hreports]
  have hzero : (udpAddpkt c q (Ptr.ofBuf gatewayAddr networkAddrLength) gatewayPort
      (Ptr.ofBuf message wifiMessageLength)).value.1 = 0 := by rw [udpAddpkt_eq hterm hfits]
  constructor
  · rintro ⟨hsafe, hholds⟩
    exact ⟨hsafe, ⟨fun _ => hholds, fun _ => hzero⟩, fun hne => absurd hzero hne⟩
  · rintro ⟨hsafe, hsuccess, -⟩
    exact ⟨hsafe, hsuccess.mp hzero⟩

theorem health_report_read_iff (hc : c.Sound) (h : q.Holds pkts) (huuid : NUL ∉ cfg.uuid)
    (haddr : NUL ∉ cfg.localAddr) (hself : LineOk w.selfCheckFile)
    (hversion : LineOk w.versionFile) :
    HealthDelivered c cfg gatewayAddr gatewayPort w q pkts
        (handleHealthReport c cfg gatewayAddr gatewayPort w q) ↔
      (pollInfoText beaconHealthReport cfg w.now).length ≤ maxLengthRespBasicInfo ∧
      (fileText w.selfCheckFile).length + (fileText w.versionFile).length + 2 <
        wifiMessageLength ∧
      (wifiMessageLength ≤ (healthText cfg w).length ∨ q.isFree = false ∧ q.isFull = false) := by
  have hnul := nul_notMem_healthText (w := w) huuid haddr
  have htemp : (fileText w.selfCheckFile).length + (fileText w.versionFile).length + 2 =
      (fileText w.selfCheckFile ++ [';'] ++ fileText w.versionFile ++ [';']).length := by
    simp only [List.length_append, List.length_singleton]
    omega
  have htotal : (healthText cfg w).length = (pollInfoText beaconHealthReport cfg w.now).length +
      (fileText w.selfCheckFile ++ [';'] ++ fileText w.versionFile ++ [';']).length := by
    rw [healthText, List.length_append]
  rw [handleHealthReport_eq hself hversion, htemp]
  by_cases hinfo : (pollInfoText beaconHealthReport cfg w.now).length > maxLengthRespBasicInfo
  · -- The text about the beacon is too long.
    rw [if_pos hinfo]
    constructor
    · rintro ⟨-, ⟨hcode, -⟩ | ⟨hcode, -⟩⟩ <;> cases hcode
    · rintro ⟨hshort, -⟩
      omega
  rw [if_neg hinfo, iff_true_intro (Nat.not_lt.mp hinfo), true_and]
  by_cases hfits : (fileText w.selfCheckFile ++ [';'] ++ fileText w.versionFile ++
      [';']).length < wifiMessageLength
  swap
  · -- `sprintf` writes beyond `message_temp`.
    constructor
    · rintro ⟨hsafe, -⟩
      simp only [faults_bind, List.append_eq_nil_iff, faults_strcpy] at hsafe
      exact absurd hsafe.1 hfits
    · rintro ⟨hshort, -⟩
      exact absurd hshort hfits
  rw [strcpy_fits hfits, watched_pure_bind, iff_true_intro hfits, true_and, ← htotal]
  by_cases hlong : wifiMessageLength ≤ (healthText cfg w).length
  · rw [if_pos hlong]
    exact ⟨fun _ => Or.inl hlong, fun _ => ⟨rfl, Or.inr ⟨rfl, hlong, rfl⟩⟩⟩
  rw [if_neg hlong, strcat_fits (by omega), watched_pure_bind, ← healthText]
  have hshort := Nat.not_le.mp hlong
  rw [← health_sent_iff hc h ⟨hnul, hshort⟩]
  constructor
  · rintro ⟨hsafe, ⟨-, -, hholds⟩ | ⟨hcode, -⟩⟩
    · simp only [faults_bind, List.append_eq_nil_iff] at hsafe
      exact Or.inr ⟨hsafe.1, hholds⟩
    · cases hcode
  · rintro (hno | ⟨hsafe, hholds⟩)
    · exact absurd hno hlong
    · refine ⟨?_, Or.inl ⟨rfl, hshort, hholds⟩⟩
      simp only [faults_bind, hsafe, faults_pure, List.append_nil]

theorem health_report_iff (hc : c.Sound) (h : q.Holds pkts) (huuid : NUL ∉ cfg.uuid)
    (haddr : NUL ∉ cfg.localAddr) (gatewayAddr : Str) (gatewayPort : Nat) (w : HealthWorld) :
    HealthDelivered c cfg gatewayAddr gatewayPort w q pkts
        (handleHealthReport c cfg gatewayAddr gatewayPort w q) ↔
      LineOk w.selfCheckFile ∧ LineOk w.versionFile ∧
      (pollInfoText beaconHealthReport cfg w.now).length ≤ maxLengthRespBasicInfo ∧
      (fileText w.selfCheckFile).length + (fileText w.versionFile).length + 2 <
        wifiMessageLength ∧
      (wifiMessageLength ≤ (healthText cfg w).length ∨ q.isFree = false ∧ q.isFull = false) := by
  by_cases hlines : LineOk w.selfCheckFile ∧ LineOk w.versionFile
  · obtain ⟨hself, hversion⟩ := hlines
    simp only [hself, hversion, true_and]
    exact health_report_read_iff hc h huuid haddr hself hversion
  · constructor
    · rintro ⟨hsafe, -⟩
      unfold handleHealthReport fileOpenRetry at hsafe
      simp only [faults_bind, List.append_eq_nil_iff] at hsafe
      exact absurd ⟨readFirstLine_faults _ hsafe.1, readFirstLine_faults _ hsafe.2.1⟩ hlines
    · rintro ⟨hself, hversion, -⟩
      exact absurd ⟨hself, hversion⟩ hlines

def sampleHealthConfig : Config :=
  ⟨"00040015000000005000000000001621".toList, "192.168.1.7".toList, -100, [], []⟩

def sampleHealthWorld (selfCheck : Str) : HealthWorld :=
  ⟨some selfCheck, none, fun _ => 'x', fun _ => 'x', 1700000000⟩

theorem health_report_iff_self_check :
    HealthDelivered prefixCodec sampleHealthConfig "192.168.1.104".toList 8888
      (sampleHealthWorld "0 \n".toList) initPacketQueue []
      (handleHealthReport prefixCodec sampleHealthConfig "192.168.1.104".toList 8888
        (sampleHealthWorld "0 \n".toList) initPacketQueue) := by
  refine (health_report_iff prefixCodec_sound init_holds (by decide) (by decide)
    "192.168.1.104".toList 8888 (sampleHealthWorld "0 \n".toList)).mpr ⟨?_, ?_, ?_⟩
  · intro content hcontent
    obtain rfl : "0 \n".toList = content := Option.some.inj hcontent
    exact Or.inr ⟨'0', by decide, by decide⟩
  · intro content hcontent
    cases hcontent
  · exact ⟨by decide, by decide, Or.inr ⟨rfl, rfl⟩⟩

/-- A self-check file that starts with an empty line. -/
theorem health_report_blank_line :
    ¬ HealthDelivered prefixCodec sampleHealthConfig "192.168.1.104".toList 8888
      (sampleHealthWorld "\n".toList) initPacketQueue []
      (handleHealthReport prefixCodec sampleHealthConfig "192.168.1.104".toList 8888
        (sampleHealthWorld "\n".toList) initPacketQueue) := by
  rintro ⟨hsafe, -⟩
  unfold handleHealthReport fileOpenRetry at hsafe
  simp only [faults_bind, List.append_eq_nil_iff] at hsafe
  rcases readFirstLine_faults _ hsafe.1 "\n".toList rfl with hnil | hsome
  · exact absurd hnil (by decide)
  · obtain ⟨c, hc, hkept⟩ := hsome
    obtain rfl := List.mem_singleton.mp hc
    exact absurd hkept (by decide)

end LBeacon
