import Mprpc.InstanceText

namespace Mprpc.TextFormat

open Transport InstanceText Library.Lines

variable {inst read : ServiceInstance}

section Decoded

theorem default_printable : Printable defaultInstance :=
  ⟨List.not_mem_nil, List.not_mem_nil, fun _ h => absurd h List.not_mem_nil⟩

theorem mem_setEntry {key value : Text} {entries : List (Text × Text)} {entry : Text × Text}
    (h : entry ∈ setEntry key value entries) : entry = (key, value) ∨ entry ∈ entries := by
  induction entries with
  | nil => exact .inl (List.mem_singleton.mp h)
  | cons first entries ih =>
    rw [setEntry] at h
    split at h
    · obtain rfl | h := List.mem_cons.mp h
      · exact .inl rfl
      · exact .inr (List.mem_cons_of_mem first h)
    · obtain rfl | h := List.mem_cons.mp h
      · exact .inr List.mem_cons_self
      · exact (ih h).imp id (List.mem_cons_of_mem first)

theorem readEntry_printable {line : Text} (hline : 10 ∉ line) (h : Printable inst) :
    Printable (readEntry line inst) := by
  unfold readEntry
  split
  · refine ⟨h.serviceName, h.host, ?_⟩
    intro entry hentry
    obtain rfl | hold := mem_setEntry hentry
    · refine ⟨?_, ?_, ?_⟩
      · exact fun hmem => hline (List.takeWhile_subset _ hmem)
      · exact fun hmem => hline (List.dropWhile_subset _ (List.mem_of_mem_tail hmem))
      · intro hmem
        simpa using List.mem_takeWhile_imp hmem
    · exact h.metadata entry hold
  · exact h

theorem readLine_printable {k : Nat} {line : Text} (hline : 10 ∉ line) (h : Printable inst)
    (hread : readLine k line inst = .ok read) : Printable read := by
  match k with
  | 0 =>
    cases hread
    exact ⟨hline, h.host, h.metadata⟩
  | 1 =>
    cases hread
    exact ⟨h.serviceName, hline, h.metadata⟩
  | 2 =>
    obtain ⟨port, -, rfl⟩ := map_eq_ok.mp hread
    exact ⟨h.serviceName, h.host, h.metadata⟩
  | 3 =>
    obtain ⟨weight, -, rfl⟩ := map_eq_ok.mp hread
    exact ⟨h.serviceName, h.host, h.metadata⟩
  | 4 =>
    cases hread
    exact ⟨h.serviceName, h.host, h.metadata⟩
  | 5 =>
    obtain ⟨lastHeartbeat, -, rfl⟩ := map_eq_ok.mp hread
    exact ⟨h.serviceName, h.host, h.metadata⟩
  | m + 6 =>
    cases hread
    exact readEntry_printable hline h

theorem readFrom_printable {k : Nat} {ls : List Text} (hls : ∀ line ∈ ls, 10 ∉ line)
    (h : Printable inst) (hread : readFrom readLine k ls inst = .ok read) : Printable read := by
  induction ls generalizing k inst with
  | nil =>
    cases hread
    exact h
  | cons line ls ih =>
    obtain ⟨hline, hrest⟩ := List.forall_mem_cons.mp hls
    cases hnext : readLine k line inst with
    | error e => simp [readFrom, hnext] at hread
    | ok next =>
      simp only [readFrom, hnext] at hread
      exact ih hrest (readLine_printable hline h hnext) hread

/-- Whatever the bytes are, what is read from them is printable. -/
theorem deserialize_printable {data : Bytes} (h : deserializeInstance data = .ok read) :
    Printable read :=
  readFrom_printable (fun _ => notMem_of_mem_lines) default_printable h

end Decoded

theorem printable_of_same (hsame : Same read inst) (hkeys : (inst.metadata.map Prod.fst).Nodup)
    (h : Printable read) : Printable inst := by
  refine ⟨hsame.serviceName ▸ h.serviceName, hsame.host ▸ h.host, ?_⟩
  intro entry hentry
  obtain ⟨j, hj⟩ := List.mem_iff_getElem?.mp hentry
  have hlookup := (hsame.metadata entry.1).trans (lookup_entry hkeys hj)
  obtain ⟨before, after, hsplit, -⟩ := List.lookup_eq_some_iff.mp hlookup
  exact h.metadata entry (by rw [hsplit]; simp)

/-- The text of an instance is read back as the instance exactly when its strings
leave the separators to the format. -/
theorem deserialize_serialize_iff (inst : ServiceInstance) (hrep : Representable inst) :
    (∃ read, deserializeInstance (serializeInstance inst) = .ok read ∧ Same read inst) ↔
      Printable inst := by
  constructor
  · rintro ⟨read, hread, hsame⟩
    exact printable_of_same hsame hrep.keys (deserialize_printable hread)
  · intro hprint
    have hfits : FitsIn (serializeInstance inst).length inst := fitsIn_of_length (Nat.le_succ _)
    have hread := deserialize_take hrep hprint hfits
    rw [List.take_length] at hread
    exact ⟨inst, hread, Same.refl inst⟩

/-- A value that brings an entry of its own: `k=v`, then `x=y`. -/
def injectingInstance : ServiceInstance :=
  ⟨[115], [104], 80, 1, true, 0, [([107], [118, 10, 120, 61, 121])]⟩

theorem deserialize_serialize_iff_injecting :
    (∃ read, deserializeInstance (serializeInstance injectingInstance) = .ok read ∧
      Same read injectingInstance) ↔ Printable injectingInstance :=
  deserialize_serialize_iff injectingInstance ⟨by decide, by decide, by decide⟩

example : (deserializeInstance (serializeInstance injectingInstance)).toOption.map (·.metadata) =
    some [([107], [118]), ([120], [121])] := by decide +kernel

end Mprpc.TextFormat
