import Mprpc.Decimal
import Mprpc.Library.Lines
import Mprpc.LoadBalancer

namespace Mprpc.InstanceText

open Transport Decimal Library.Lines

/-- What the default constructor makes. -/
def defaultInstance : ServiceInstance := ⟨[], [], 0, 1, false, 0, []⟩

def entryLine (entry : Text × Text) : Text := entry.1 ++ 61 :: entry.2

/-- The lines of the text, the metadata in the order the map is gone through. -/
def instanceLines (inst : ServiceInstance) : List Text :=
  [inst.serviceName, inst.host, decimal inst.port.toNat, decimalInt inst.weight,
    if inst.isHealthy then [49] else [48], decimal inst.lastHeartbeat.toNat] ++
    inst.metadata.map entryLine

def serializeInstance (inst : ServiceInstance) : Bytes := unlines 10 (instanceLines inst)

/-- `metadata[key] = value`. -/
def setEntry (key value : Text) : List (Text × Text) → List (Text × Text)
  | [] => [(key, value)]
  | entry :: entries =>
    if entry.1 = key then (key, value) :: entries else entry :: setEntry key value entries

/-- A line of metadata is cut at its first `=`; one without is passed over. -/
def readEntry (line : Text) (inst : ServiceInstance) : ServiceInstance :=
  if 61 ∈ line then
    { inst with
      metadata := setEntry (line.takeWhile (· ≠ 61)) (line.dropWhile (· ≠ 61)).tail inst.metadata }
  else inst

/-- What `deserializeInstance` does with the line of a number. The port is narrowed
to 16 bits. -/
def readLine (k : Nat) (line : Text) (inst : ServiceInstance) :
    Except NumberError ServiceInstance :=
  match k with
  | 0 => .ok { inst with serviceName := line }
  | 1 => .ok { inst with host := line }
  | 2 => (stoi line).map fun port => { inst with port := UInt16.ofInt port }
  | 3 => (stoi line).map fun weight => { inst with weight := weight }
  | 4 => .ok { inst with isHealthy := line = [49] }
  | 5 => (stoull line).map fun lastHeartbeat => { inst with lastHeartbeat := lastHeartbeat }
  | _ + 6 => .ok (readEntry line inst)

/-- `std::getline` gives the lines; the fields of those it does not give keep their defaults. -/
def deserializeInstance (data : Bytes) : Except NumberError ServiceInstance :=
  readFrom readLine 0 (lines 10 data) defaultInstance

/-- What the types of the fields promise: the weight is an `int`, the metadata a map. -/
structure Representable (inst : ServiceInstance) : Prop where
  weight_ge : -2 ^ 31 ≤ inst.weight
  weight_lt : inst.weight < 2 ^ 31
  keys : (inst.metadata.map Prod.fst).Nodup

/-- No string has a newline, and no key an `=`. -/
structure Printable (inst : ServiceInstance) : Prop where
  serviceName : 10 ∉ inst.serviceName
  host : 10 ∉ inst.host
  metadata : ∀ entry ∈ inst.metadata, 10 ∉ entry.1 ∧ 10 ∉ entry.2 ∧ 61 ∉ entry.1

/-- Equal in every field, the metadata as maps. -/
structure Same (inst other : ServiceInstance) : Prop where
  serviceName : inst.serviceName = other.serviceName
  host : inst.host = other.host
  port : inst.port = other.port
  weight : inst.weight = other.weight
  isHealthy : inst.isHealthy = other.isHealthy
  lastHeartbeat : inst.lastHeartbeat = other.lastHeartbeat
  metadata : ∀ key, inst.metadata.lookup key = other.metadata.lookup key

theorem Same.refl (inst : ServiceInstance) : Same inst inst :=
  ⟨rfl, rfl, rfl, rfl, rfl, rfl, fun _ => rfl⟩

/-- The line holds the default value of its field. -/
def Idle (inst : ServiceInstance) : Nat → Prop
  | 0 => inst.serviceName = []
  | 1 => inst.host = []
  | 2 => inst.port = 0
  | 3 => inst.weight = 1
  | 4 => inst.isHealthy = false
  | 5 => inst.lastHeartbeat = 0
  | _ + 6 => False

/-- Every line of the text but those that hold default values ends within the
first `n` bytes, its newline not counted. -/
def FitsIn (n : Nat) (inst : ServiceInstance) : Prop :=
  ∀ k line, (instanceLines inst)[k]? = some line → ¬Idle inst k →
    (unlines 10 ((instanceLines inst).take k)).length + line.length ≤ n

/-- The instance that is known after the first lines. -/
def upTo (inst : ServiceInstance) (k : Nat) : ServiceInstance where
  serviceName := if 0 < k then inst.serviceName else []
  host := if 1 < k then inst.host else []
  port := if 2 < k then inst.port else 0
  weight := if 3 < k then inst.weight else 1
  isHealthy := if 4 < k then inst.isHealthy else false
  lastHeartbeat := if 5 < k then inst.lastHeartbeat else 0
  metadata := inst.metadata.take (k - 6)

variable {inst : ServiceInstance}

theorem fitsIn_of_length {n : Nat} (h : (serializeInstance inst).length ≤ n + 1) :
    FitsIn n inst := by
  intro k line hline _
  have hle := length_unlines_take 10 hline
  rw [← serializeInstance] at hle
  omega

theorem setEntry_new {key value : Text} {entries : List (Text × Text)}
    (h : key ∉ entries.map Prod.fst) : setEntry key value entries = entries ++ [(key, value)] := by
  induction entries with
  | nil => rfl
  | cons entry entries ih =>
    rw [List.map_cons, List.mem_cons, not_or] at h
    rw [setEntry, if_neg (Ne.symm h.1), ih h.2]
    rfl

theorem readEntry_entryLine {entry : Text × Text} (hkey : 61 ∉ entry.1)
    (hnew : entry.1 ∉ inst.metadata.map Prod.fst) :
    readEntry (entryLine entry) inst = { inst with metadata := inst.metadata ++ [entry] } := by
  have hne : ∀ c ∈ entry.1, decide (c ≠ 61) = true := by
    intro c hc
    exact decide_eq_true fun heq => hkey (heq ▸ hc)
  have hkeyPart : (entryLine entry).takeWhile (· ≠ 61) = entry.1 := by
    rw [entryLine, List.takeWhile_append_of_pos hne, List.takeWhile_cons_of_neg (by decide),
      List.append_nil]
  have hvalue : ((entryLine entry).dropWhile (· ≠ 61)).tail = entry.2 := by
    rw [entryLine, List.dropWhile_append_of_pos hne, List.dropWhile_cons_of_neg (by decide),
      List.tail_cons]
  rw [readEntry, if_pos (by simp [entryLine]), hkeyPart, hvalue, setEntry_new hnew]

theorem instanceLines_entry (inst : ServiceInstance) (m : Nat) :
    (instanceLines inst)[m + 6]? = inst.metadata[m]?.map entryLine := by
  rw [← List.getElem?_map]
  rfl

theorem take_entry {m : Nat} {entry : Text × Text} (h : inst.metadata[m]? = some entry) :
    inst.metadata.take (m + 1) = inst.metadata.take m ++ [entry] := by
  rw [List.take_add_one, h]
  rfl

theorem keys_take {m : Nat} {entry : Text × Text} (hkeys : (inst.metadata.map Prod.fst).Nodup)
    (h : inst.metadata[m]? = some entry) : entry.1 ∉ (inst.metadata.take m).map Prod.fst := by
  have hnodup : ((inst.metadata.take (m + 1)).map Prod.fst).Nodup :=
    hkeys.sublist ((List.take_sublist _ _).map _)
  rw [take_entry h, List.map_append] at hnodup
  intro hmem
  exact (List.nodup_append.mp hnodup).2.2 _ hmem _ (by simp) rfl

theorem ofInt_toNat (port : UInt16) : UInt16.ofInt (port.toNat : Int) = port := by
  have hmod : ((port.toNat : Int) % 2 ^ 16).toNat = port.toNat := by
    have hlt := port.toNat_lt
    omega
  rw [UInt16.ofInt, hmod]
  exact UInt16.ofNat_toNat

theorem readLine_upTo (hrep : Representable inst) (hprint : Printable inst) {k : Nat} {line : Text}
    (h : (instanceLines inst)[k]? = some line) :
    readLine k line (upTo inst k) = .ok (upTo inst (k + 1)) := by
  match k with
  | 0 =>
    cases h
    simp [readLine, upTo]
  | 1 =>
    cases h
    simp [readLine, upTo]
  | 2 =>
    cases h
    have hport : inst.port.toNat < 2 ^ 31 := lt_trans inst.port.toNat_lt (by decide)
    simp [readLine, upTo, stoi_decimal hport, Except.map, ofInt_toNat]
  | 3 =>
    cases h
    simp [readLine, upTo, stoi_decimalInt hrep.weight_ge hrep.weight_lt, Except.map]
  | 4 =>
    cases h
    cases hh : inst.isHealthy <;> simp [readLine, upTo, hh]
  | 5 =>
    cases h
    simp [readLine, upTo, stoull_decimal, Except.map]
  | m + 6 =>
    rw [instanceLines_entry] at h
    obtain ⟨entry, hentry, rfl⟩ := Option.map_eq_some_iff.mp h
    have hkey := (hprint.metadata entry (List.mem_of_getElem? hentry)).2.2
    have hnew : entry.1 ∉ (upTo inst (m + 6)).metadata.map Prod.fst := keys_take hrep.keys hentry
    have hmetadata : (upTo inst (m + 6)).metadata ++ [entry] = (upTo inst (m + 6 + 1)).metadata :=
      (take_entry hentry).symm
    rw [readLine, readEntry_entryLine hkey hnew, hmetadata]
    simp [upTo]

theorem instanceLines_newline (hprint : Printable inst) :
    ∀ line ∈ instanceLines inst, 10 ∉ line := by
  intro line hline
  cases List.mem_append.mp hline with
  | inl h =>
    simp only [List.mem_cons, List.not_mem_nil, or_false] at h
    obtain rfl | rfl | rfl | rfl | rfl | rfl := h
    · exact hprint.serviceName
    · exact hprint.host
    · exact newline_notMem_decimal _
    · exact newline_notMem_decimalInt _
    · cases inst.isHealthy <;> decide
    · exact newline_notMem_decimal _
  | inr h =>
    obtain ⟨entry, hentry, rfl⟩ := List.mem_map.mp h
    obtain ⟨hkey, hvalue, -⟩ := hprint.metadata entry hentry
    simp [entryLine, hkey, hvalue]

/-- A default value is a short line, and leaving it out changes nothing. -/
theorem idle_upTo {k : Nat} {line : Text} (h : (instanceLines inst)[k]? = some line)
    (hidle : Idle inst k) : line.length ≤ 1 ∧ upTo inst (k + 1) = upTo inst k := by
  match k with
  | 0 =>
    cases h
    have hd : inst.serviceName = [] := hidle
    simp [upTo, hd]
  | 1 =>
    cases h
    have hd : inst.host = [] := hidle
    simp [upTo, hd]
  | 2 =>
    cases h
    have hd : inst.port = 0 := hidle
    simp [upTo, hd, decimal_of_lt]
  | 3 =>
    cases h
    have hd : inst.weight = 1 := hidle
    simp [upTo, hd, decimalInt, decimal_of_lt]
  | 4 =>
    cases h
    have hd : inst.isHealthy = false := hidle
    simp [upTo, hd]
  | 5 =>
    cases h
    have hd : inst.lastHeartbeat = 0 := hidle
    simp [upTo, hd, decimal_of_lt]
  | m + 6 => cases hidle

theorem empty_upTo {k : Nat} (h : (instanceLines inst)[k]? = some []) :
    upTo inst (k + 1) = upTo inst k := by
  by_cases hidle : Idle inst k
  · exact (idle_upTo h hidle).2
  · exfalso
    match k with
    | 0 => exact hidle (Option.some.inj h)
    | 1 => exact hidle (Option.some.inj h)
    | 2 => exact decimal_ne_nil _ (Option.some.inj h)
    | 3 => exact decimalInt_ne_nil _ (Option.some.inj h)
    | 4 => cases hh : inst.isHealthy <;> simp [instanceLines, hh] at h
    | 5 => exact decimal_ne_nil _ (Option.some.inj h)
    | m + 6 =>
      rw [instanceLines_entry] at h
      obtain ⟨entry, -, hentry⟩ := Option.map_eq_some_iff.mp h
      simp [entryLine] at hentry

theorem upTo_length (inst : ServiceInstance) : upTo inst (instanceLines inst).length = inst := by
  have hlength : (instanceLines inst).length = inst.metadata.length + 6 := by
    simp [instanceLines]
  simp [upTo, hlength]

/-- An instance whose text is cut off after `n` bytes is read back whole if all
that is not a default value lies in them. -/
theorem deserialize_take (hrep : Representable inst) (hprint : Printable inst) {n : Nat}
    (hfits : FitsIn n inst) :
    deserializeInstance ((serializeInstance inst).take n) = .ok inst := by
  have hstart : upTo inst 0 = defaultInstance := rfl
  rw [deserializeInstance, serializeInstance,
    lines_take_unlines (instanceLines_newline hprint), ← hstart]
  have hread : ∀ k line, (instanceLines inst)[k]? = some line →
      readLine k line (upTo inst k) = .ok (upTo inst (k + 1)) :=
    fun _ _ => readLine_upTo hrep hprint
  have hidle : ∀ k line, (instanceLines inst)[k]? = some line → Idle inst k →
      line.length ≤ 1 ∧ upTo inst (k + 1) = upTo inst k := fun _ _ => idle_upTo
  exact (readFrom_cut hread 10 (Idle inst) (fun _ => empty_upTo) hidle hfits).trans
    (congrArg _ (upTo_length inst))

theorem lookup_entry (hkeys : (inst.metadata.map Prod.fst).Nodup) {j : Nat} {entry : Text × Text}
    (h : inst.metadata[j]? = some entry) : inst.metadata.lookup entry.1 = some entry.2 := by
  have hsplit := List.take_append_drop j inst.metadata
  have hdrop : inst.metadata.drop j = entry :: inst.metadata.drop (j + 1) := by
    obtain ⟨hj, rfl⟩ := List.getElem?_eq_some_iff.mp h
    exact List.drop_eq_getElem_cons hj
  refine List.lookup_eq_some_iff.mpr ⟨_, _, (hdrop ▸ hsplit).symm, ?_⟩
  intro other hother
  have hne : entry.1 ≠ other.1 := fun heq =>
    keys_take hkeys h (heq ▸ List.mem_map_of_mem hother)
  simpa using hne

theorem lookup_take (hkeys : (inst.metadata.map Prod.fst).Nodup) {j m : Nat} {entry : Text × Text}
    (h : inst.metadata[j]? = some entry) (hm : m ≤ j) :
    (inst.metadata.take m).lookup entry.1 = none := by
  refine List.lookup_eq_none_iff.mpr ?_
  intro other hother
  have hmem : other ∈ inst.metadata.take j := (List.take_subset_take_left _ hm) hother
  have hne : entry.1 ≠ other.1 := fun heq =>
    keys_take hkeys h (heq ▸ List.mem_map_of_mem hmem)
  simpa using hne

theorem upTo_not_same (hkeys : (inst.metadata.map Prod.fst).Nodup) {k m : Nat} {line : Text}
    (h : (instanceLines inst)[k]? = some line) (hidle : ¬Idle inst k) (hm : m ≤ k) :
    ¬Same (upTo inst m) inst := by
  intro hsame
  match k with
  | 0 => exact hidle (by simpa [Idle, upTo, Nat.not_lt.mpr hm] using hsame.serviceName.symm)
  | 1 => exact hidle (by simpa [Idle, upTo, Nat.not_lt.mpr hm] using hsame.host.symm)
  | 2 => exact hidle (by simpa [Idle, upTo, Nat.not_lt.mpr hm] using hsame.port.symm)
  | 3 => exact hidle (by simpa [Idle, upTo, Nat.not_lt.mpr hm] using hsame.weight.symm)
  | 4 => exact hidle (by simpa [Idle, upTo, Nat.not_lt.mpr hm] using hsame.isHealthy.symm)
  | 5 => exact hidle (by simpa [Idle, upTo, Nat.not_lt.mpr hm] using hsame.lastHeartbeat.symm)
  | j + 6 =>
    rw [instanceLines_entry] at h
    obtain ⟨entry, hentry, -⟩ := Option.map_eq_some_iff.mp h
    have hmetadata := hsame.metadata entry.1
    rw [lookup_entry hkeys hentry] at hmetadata
    have hnone : (upTo inst m).metadata.lookup entry.1 = none :=
      lookup_take hkeys hentry (by omega)
    rw [hnone] at hmetadata
    cases hmetadata

theorem map_eq_ok {α β : Type} {f : α → β} {result : Except NumberError α} {b : β} :
    result.map f = .ok b ↔ ∃ a, result = .ok a ∧ f a = b := by
  cases result <;> simp [Except.map]

theorem readEntry_part (hrep : Representable inst) (hprint : Printable inst) {j : Nat}
    {entry : Text × Text} {part : Text} (h : inst.metadata[j]? = some entry)
    (hpart : part <+: entryLine entry) (hshort : part ≠ entryLine entry) :
    ¬Same (readEntry part (upTo inst (j + 6))) inst := by
  intro hsame
  have hkey := (hprint.metadata entry (List.mem_of_getElem? h)).2.2
  have hnew : entry.1 ∉ (upTo inst (j + 6)).metadata.map Prod.fst := keys_take hrep.keys h
  have hold : (inst.metadata.take j).lookup entry.1 = none :=
    lookup_take hrep.keys h (Nat.le_refl j)
  have hvalue := hsame.metadata entry.1
  rw [lookup_entry hrep.keys h] at hvalue
  by_cases heq : 61 ∈ part
  · obtain ⟨key, value, rfl, hfirst⟩ := List.eq_append_cons_of_mem heq
    obtain ⟨rest, hrest⟩ := hpart
    rw [List.append_assoc, List.cons_append] at hrest
    obtain ⟨rfl, -⟩ := split_first hfirst hkey hrest
    have hreads := @readEntry_entryLine (upTo inst (j + 6)) (entry.1, value) hkey hnew
    rw [entryLine] at hreads
    rw [hreads] at hvalue
    have hlookup : (inst.metadata.take j ++ [(entry.1, value)]).lookup entry.1 =
        some value := by
      rw [List.lookup_append, hold]
      simp
    have hsameValue : value = entry.2 := Option.some.inj (hlookup.symm.trans hvalue)
    exact hshort (by rw [hsameValue]; rfl)
  · rw [readEntry, if_neg heq] at hvalue
    cases hold.symm.trans hvalue

/-- A part of a line is read as something else than the line. -/
theorem readLine_part (hrep : Representable inst) (hprint : Printable inst) {m : Nat}
    {line part : Text} {read : ServiceInstance} (h : (instanceLines inst)[m]? = some line)
    (hpart : part <+: line) (hne : part ≠ []) (hshort : part ≠ line)
    (hread : readLine m part (upTo inst m) = .ok read) : ¬Same read inst := by
  intro hsame
  match m with
  | 0 =>
    cases h
    cases hread
    exact hshort hsame.serviceName
  | 1 =>
    cases h
    cases hread
    exact hshort hsame.host
  | 2 =>
    cases h
    obtain ⟨port, hport, rfl, -⟩ := decimal_of_prefix hpart hne
    have hlt := inst.port.toNat_lt
    have hstoi : stoi (decimal port) = .ok (port : Int) := stoi_decimal (by omega)
    simp only [readLine, hstoi, Except.map] at hread
    cases hread
    have hnarrow : UInt16.ofInt (port : Int) = inst.port := hsame.port
    rw [← UInt16.toNat_ofNat_of_lt' (lt_of_le_of_lt hport hlt), ofInt_toNat] at hnarrow
    refine hshort (congrArg decimal ?_)
    rw [← hnarrow, UInt16.toNat_ofNat_of_lt' (lt_of_le_of_lt hport hlt)]
  | 3 =>
    cases h
    obtain ⟨weight, hstoi, rfl⟩ := map_eq_ok.mp hread
    have hweight : weight = inst.weight := hsame.weight
    exact hshort (hweight ▸ stoi_part hrep.weight_ge hrep.weight_lt hpart hne hstoi)
  | 4 =>
    have hlength : line.length = 1 := by
      cases h
      cases inst.isHealthy <;> rfl
    have hpos := List.length_pos_iff.mpr hne
    exact hshort (hpart.eq_of_length_le (by omega))
  | 5 =>
    cases h
    obtain ⟨lastHeartbeat, hstoull, rfl⟩ := map_eq_ok.mp hread
    have hheartbeat : lastHeartbeat = inst.lastHeartbeat := hsame.lastHeartbeat
    exact hshort (hheartbeat ▸ stoull_part hpart hne hstoull)
  | j + 6 =>
    rw [instanceLines_entry] at h
    obtain ⟨entry, hentry, rfl⟩ := Option.map_eq_some_iff.mp h
    cases hread
    exact readEntry_part hrep hprint hentry hpart hshort hsame

theorem fitsIn_of_same (hrep : Representable inst) (hprint : Printable inst) {n : Nat}
    {read : ServiceInstance}
    (h : deserializeInstance ((serializeInstance inst).take n) = .ok read)
    (hsame : Same read inst) : FitsIn n inst := by
  have hstart : upTo inst 0 = defaultInstance := rfl
  rw [deserializeInstance, serializeInstance,
    lines_take_unlines (instanceLines_newline hprint), ← hstart] at h
  have hread : ∀ k line, (instanceLines inst)[k]? = some line →
      readLine k line (upTo inst k) = .ok (upTo inst (k + 1)) :=
    fun _ _ => readLine_upTo hrep hprint
  intro k line hline hidle
  by_contra hout
  obtain ⟨m, hm, rfl⟩ | ⟨m, line', part, hline', hpart, hne, hshort, hlast⟩ :=
    readFrom_cut_cases hread h hline (Nat.not_le.mp hout)
  · exact upTo_not_same hrep.keys hline hidle hm hsame
  · exact readLine_part hrep hprint hline' hpart hne hshort hlast hsame

/-- Which instances survive a buffer of `n` bytes. -/
theorem deserialize_take_iff (hrep : Representable inst) (hprint : Printable inst) {n : Nat} :
    (∃ read, deserializeInstance ((serializeInstance inst).take n) = .ok read ∧ Same read inst) ↔
      FitsIn n inst := by
  constructor
  · rintro ⟨read, h, hsame⟩
    exact fitsIn_of_same hrep hprint h hsame
  · intro hfits
    exact ⟨inst, deserialize_take hrep hprint hfits, Same.refl inst⟩

/-- The eighth byte is the first digit of a weight of 12. -/
theorem deserialize_take_cut :
    ¬∃ read, deserializeInstance ((serializeInstance ⟨[115], [104], 80, 12, true, 0, []⟩).take 8) =
      .ok read ∧ Same read ⟨[115], [104], 80, 12, true, 0, []⟩ := by
  have hrep : Representable ⟨[115], [104], 80, 12, true, 0, []⟩ :=
    ⟨by decide, by decide, List.nodup_nil⟩
  have hprint : Printable ⟨[115], [104], 80, 12, true, 0, []⟩ :=
    ⟨by decide, by decide, fun _ h => by cases h⟩
  intro hread
  have hfits := (deserialize_take_iff hrep hprint).mp hread
  have hweight := hfits 3 [49, 50] (by decide) (show ¬(12 : Int) = 1 by decide)
  exact absurd hweight (by decide)

theorem readLine_address {k : Nat} {line : Text} {read : ServiceInstance} (hk : 3 ≤ k)
    (h : readLine k line inst = .ok read) : read.host = inst.host ∧ read.port = inst.port := by
  match k with
  | 3 =>
    obtain ⟨weight, -, rfl⟩ := map_eq_ok.mp h
    exact ⟨rfl, rfl⟩
  | 4 =>
    cases h
    exact ⟨rfl, rfl⟩
  | 5 =>
    obtain ⟨lastHeartbeat, -, rfl⟩ := map_eq_ok.mp h
    exact ⟨rfl, rfl⟩
  | m + 6 =>
    cases h
    unfold readEntry
    split <;> exact ⟨rfl, rfl⟩

theorem readFrom_address {k : Nat} {ls : List Text} {read : ServiceInstance} (hk : 3 ≤ k)
    (h : readFrom readLine k ls inst = .ok read) :
    read.host = inst.host ∧ read.port = inst.port := by
  induction ls generalizing k inst with
  | nil =>
    cases h
    exact ⟨rfl, rfl⟩
  | cons line ls ih =>
    cases hline : readLine k line inst with
    | error e => simp [readFrom, hline] at h
    | ok next =>
      simp only [readFrom, hline] at h
      obtain ⟨hhost, hport⟩ := readLine_address hk hline
      obtain ⟨hhost', hport'⟩ := ih (Nat.le_succ_of_le hk) h
      exact ⟨hhost'.trans hhost, hport'.trans hport⟩

/-- The text of an address: its lines but for the last newline. -/
def addressText (inst : ServiceInstance) : Text :=
  inst.serviceName ++ 10 :: (inst.host ++ 10 :: decimal inst.port.toNat)

theorem lines_address (hname : 10 ∉ inst.serviceName) (hhost : 10 ∉ inst.host) {n : Nat}
    (hfits : (addressText inst).length ≤ n) :
    ∃ more, lines 10 ((serializeInstance inst).take n) =
      inst.serviceName :: inst.host :: decimal inst.port.toNat :: more := by
  have hport := newline_notMem_decimal inst.port.toNat
  let rest := (instanceLines inst).drop 3
  have htext : serializeInstance inst = addressText inst ++ 10 :: unlines 10 rest := by
    simp [serializeInstance, instanceLines, unlines, addressText, rest]
  obtain ⟨m, rfl⟩ := Nat.exists_eq_add_of_le hfits
  rw [htext, List.take_length_add_append]
  cases m with
  | zero =>
    refine ⟨[], ?_⟩
    rw [List.take_zero, List.append_nil, addressText, lines_append_sep hname,
      lines_append_sep hhost, lines_of_notMem hport, if_neg (decimal_ne_nil _)]
  | succ m =>
    refine ⟨lines 10 ((unlines 10 rest).take m), ?_⟩
    rw [List.take_succ_cons, addressText, List.append_assoc, List.cons_append, List.append_assoc,
      List.cons_append, lines_append_sep hname, lines_append_sep hhost, lines_append_sep hport]

/-- Where the decoder sees the whole address, it reads the id that was registered. -/
theorem getId_of_read (hname : 10 ∉ inst.serviceName) (hhost : 10 ∉ inst.host) {n : Nat}
    (hfits : (addressText inst).length ≤ n) {read : ServiceInstance}
    (h : deserializeInstance ((serializeInstance inst).take n) = .ok read) :
    read.getId = inst.getId := by
  obtain ⟨more, hlines⟩ := lines_address hname hhost hfits
  have hport : inst.port.toNat < 2 ^ 31 := lt_trans inst.port.toNat_lt (by decide)
  rw [deserializeInstance, hlines] at h
  simp only [readFrom, readLine, stoi_decimal hport, Except.map, ofInt_toNat] at h
  obtain ⟨hhost', hport'⟩ := readFrom_address (by decide) h
  rw [ServiceInstance.getId, ServiceInstance.getId, hhost', hport']

end Mprpc.InstanceText
