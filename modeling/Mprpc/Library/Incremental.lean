import Mathlib.Data.List.Basic
import Mathlib.Data.List.Infix

namespace Mprpc.Library.Incremental

variable {α β : Type*}

inductive Verdict (α β : Type*)
  | wait
  | item (value : β) (rest : List α)
  | broken

/-- A decoder that judges the front of its input. A verdict other than `wait`
is final: input that arrives later cannot change it. -/
structure Decoder (α β : Type*) where
  next : List α → Verdict α β
  shrinks : ∀ xs value rest, next xs = .item value rest → rest.length < xs.length
  item_append : ∀ xs value rest ys, next xs = .item value rest →
    next (xs ++ ys) = .item value (rest ++ ys)
  broken_append : ∀ xs ys, next xs = .broken → next (xs ++ ys) = .broken

namespace Decoder

/-- Cut items off the front until the decoder has to wait. The second component
is the input left over, or `none` when the decoder met broken input. -/
def drain (d : Decoder α β) (xs : List α) : List β × Option (List α) :=
  match h : d.next xs with
  | .wait => ([], some xs)
  | .item value rest =>
    have := d.shrinks xs value rest h
    (value :: (d.drain rest).1, (d.drain rest).2)
  | .broken => ([], none)
termination_by xs.length

/-- Receive a stream chunk by chunk. What is buffered when the input turns out
broken is dropped, and the next chunk is decoded from its first symbol. -/
def receive (d : Decoder α β) : List α → List (List α) → List β × List α
  | pending, [] => ([], pending)
  | pending, chunk :: chunks =>
    let drained := d.drain (pending ++ chunk)
    let later := d.receive (drained.2.getD []) chunks
    (drained.1 ++ later.1, later.2)

variable (d : Decoder α β)

theorem drain_wait {xs : List α} (h : d.next xs = .wait) : d.drain xs = ([], some xs) := by
  rw [drain]
  split <;> simp_all

theorem drain_item {xs rest : List α} {value : β} (h : d.next xs = .item value rest) :
    d.drain xs = (value :: (d.drain rest).1, (d.drain rest).2) := by
  rw [drain]
  split <;> simp_all

theorem drain_broken {xs : List α} (h : d.next xs = .broken) : d.drain xs = ([], none) := by
  rw [drain]
  split <;> simp_all

theorem next_of_drain {xs rest : List α} {values : List β}
    (h : d.drain xs = (values, some rest)) : d.next rest = .wait := by
  induction xs using drain.induct d generalizing values with
  | case1 xs hw =>
    rw [drain_wait d hw] at h
    cases h
    exact hw
  | case2 xs value tail hi _ ih =>
    rw [drain_item d hi] at h
    obtain ⟨_, hr⟩ := Prod.mk.inj h
    exact ih (Prod.ext rfl hr)
  | case3 xs hb =>
    rw [drain_broken d hb] at h
    cases h

/-- Draining in two goes is draining once, as long as the first go did not
meet broken input. -/
theorem drain_append {xs rest : List α} {values : List β}
    (h : d.drain xs = (values, some rest)) (ys : List α) :
    d.drain (xs ++ ys) = (values ++ (d.drain (rest ++ ys)).1, (d.drain (rest ++ ys)).2) := by
  induction xs using drain.induct d generalizing values with
  | case1 xs hw =>
    rw [drain_wait d hw] at h
    cases h
    simp
  | case2 xs value tail hi _ ih =>
    rw [drain_item d hi] at h
    obtain ⟨hv, hr⟩ := Prod.mk.inj h
    have ht := ih (Prod.ext rfl hr)
    rw [drain_item d (d.item_append xs value tail ys hi), ht, ← hv, List.cons_append]
  | case3 xs hb =>
    rw [drain_broken d hb] at h
    cases h

theorem drain_append_none {xs : List α} {values : List β}
    (h : d.drain xs = (values, none)) (ys : List α) : d.drain (xs ++ ys) = (values, none) := by
  induction xs using drain.induct d generalizing values with
  | case1 xs hw =>
    rw [drain_wait d hw] at h
    cases h
  | case2 xs value tail hi _ ih =>
    rw [drain_item d hi] at h
    obtain ⟨hv, hr⟩ := Prod.mk.inj h
    have ht := ih (Prod.ext rfl hr)
    rw [drain_item d (d.item_append xs value tail ys hi), ht, ← hv]
  | case3 xs hb =>
    rw [drain_broken d hb] at h
    cases h
    exact drain_broken d (d.broken_append xs ys hb)

theorem receive_append (pending : List α) (chunks later : List (List α)) :
    d.receive pending (chunks ++ later) =
      ((d.receive pending chunks).1 ++ (d.receive (d.receive pending chunks).2 later).1,
        (d.receive (d.receive pending chunks).2 later).2) := by
  induction chunks generalizing pending with
  | nil => simp [receive]
  | cons chunk chunks ih => simp [receive, ih, List.append_assoc]

/-- On a stream without broken input the chunk boundaries do not matter. -/
theorem receive_flatten (pending : List α) (chunks : List (List α)) {values : List β}
    {rest : List α} (hw : d.next pending = .wait)
    (h : d.drain (pending ++ chunks.flatten) = (values, some rest)) :
    d.receive pending chunks = (values, rest) := by
  induction chunks generalizing pending values with
  | nil =>
    rw [List.flatten_nil, List.append_nil, drain_wait d hw] at h
    cases h
    rfl
  | cons chunk chunks ih =>
    rw [List.flatten_cons, ← List.append_assoc] at h
    cases hd : d.drain (pending ++ chunk) with
    | mk front left =>
      cases left with
      | none =>
        rw [drain_append_none d hd] at h
        cases h
      | some left =>
        rw [drain_append d hd] at h
        obtain ⟨hv, hr⟩ := Prod.mk.inj h
        have ht := ih left (next_of_drain d hd) (Prod.ext rfl hr)
        simp only [receive, hd, Option.getD_some, ht, hv]

/-- When the input of some chunk breaks, what had been cut off before stands,
and the chunks after it are received as a stream of their own. -/
theorem receive_broken {chunks : List (List α)} {chunk rest : List α} {front values : List β}
    (later : List (List α)) (hw : d.next [] = .wait)
    (hf : d.drain chunks.flatten = (front, some rest))
    (hb : d.drain (chunks.flatten ++ chunk) = (values, none)) :
    d.receive [] (chunks ++ [chunk]) = (values, []) ∧
      d.receive [] (chunks ++ chunk :: later) =
        (values ++ (d.receive [] later).1, (d.receive [] later).2) := by
  have hr := receive_flatten d [] chunks hw (by rwa [List.nil_append])
  rw [drain_append d hf] at hb
  obtain ⟨hv, hn⟩ := Prod.mk.inj hb
  have h : d.receive [] (chunks ++ [chunk]) = (values, []) := by
    simp only [receive_append, hr, receive, hn, Option.getD_none, List.append_nil, hv]
  refine ⟨h, ?_⟩
  rw [List.append_cons, receive_append, h]

/-- The decoder undoes an encoder on the valid values: it recognises an encoding
whatever follows, and waits while an encoding is incomplete. -/
structure Inverts (encode : β → List α) (Valid : β → Prop) : Prop where
  next_nil : d.next [] = .wait
  next_encode : ∀ value ys, Valid value → d.next (encode value ++ ys) = .item value ys
  next_short : ∀ value xs, Valid value → xs <+: encode value → xs ≠ encode value →
    d.next xs = .wait

variable {d} {encode : β → List α} {Valid : β → Prop}

theorem Inverts.drain_encoded (h : d.Inverts encode Valid) {values : List β}
    (hv : ∀ value ∈ values, Valid value) (ys : List α) :
    d.drain (values.flatMap encode ++ ys) = (values ++ (d.drain ys).1, (d.drain ys).2) := by
  induction values with
  | nil => simp
  | cons value values ih =>
    have hn := h.next_encode value (values.flatMap encode ++ ys) (hv value (by simp))
    rw [← List.append_assoc, ← List.flatMap_cons] at hn
    rw [drain_item d hn, ih (fun w hw => hv w (by simp [hw])), List.cons_append]

/-- Draining a prefix of an encoded sequence yields the longest run of values
whose encodings the prefix contains. -/
theorem Inverts.drain_prefix (h : d.Inverts encode Valid) (values : List β)
    (hv : ∀ value ∈ values, Valid value) {xs : List α} (hx : xs <+: values.flatMap encode) :
    ∃ k ≤ values.length,
      d.drain xs = (values.take k, some (xs.drop ((values.take k).flatMap encode).length)) ∧
      ∀ j ≤ values.length, ((values.take j).flatMap encode).length ≤ xs.length ↔ j ≤ k := by
  induction values generalizing xs with
  | nil =>
    have hnil : xs = [] := List.prefix_nil.mp hx
    subst hnil
    exact ⟨0, le_rfl, by simpa using drain_wait d h.next_nil, by simp⟩
  | cons value values ih =>
    have hval := hv value (by simp)
    rw [List.flatMap_cons] at hx
    by_cases hle : (encode value).length ≤ xs.length
    · obtain ⟨ys, rfl⟩ := List.prefix_of_prefix_length_le (List.prefix_append _ _) hx hle
      obtain ⟨k, hk, hd, hlong⟩ := ih (fun w hw => hv w (by simp [hw]))
        ((List.prefix_append_right_inj _).mp hx)
      refine ⟨k + 1, by simpa using hk, ?_, ?_⟩
      · rw [drain_item d (h.next_encode value ys hval), hd]
        simp [List.drop_append]
      · intro j hj
        cases j with
        | zero => simp
        | succ j => simpa using hlong j (by simpa using hj)
    · have hp := List.prefix_of_prefix_length_le hx (List.prefix_append _ _) (by omega)
      have hne : xs ≠ encode value := by
        rintro rfl
        exact hle le_rfl
      refine ⟨0, by simp, by simpa using drain_wait d (h.next_short value xs hval hp hne), ?_⟩
      intro j hj
      cases j with
      | zero => simp
      | succ j =>
        simp only [List.take_succ_cons, List.flatMap_cons, List.length_append]
        omega

end Decoder

end Mprpc.Library.Incremental
