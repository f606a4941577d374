import Mprpc.Library.LockedObject
import Mprpc.Library.NameTable
import Mprpc.Serializer

namespace Mprpc

open Transport Library

namespace SerializerFactory

variable {μ : Type} (type : MessageType μ)

def createProtobufSerializer : Serializer μ := ProtobufSerializer type

def createJsonSerializer : Serializer μ := JsonSerializer type

def createSerializer (name : Text) : Option (Serializer μ) :=
  if name = text "protobuf" then some (createProtobufSerializer type)
  else if name = text "json" then some (createJsonSerializer type)
  else none

def getSupportedSerializer : List Text := [text "protobuf", text "json"]

def isSupported (name : Text) : Bool :=
  (getSupportedSerializer.find? fun supported => supported = name).isSome

/-- The two lists of names agree. -/
theorem isSupported_iff (name : Text) :
    isSupported name = true ↔ (createSerializer type name).isSome = true := by
  have hne : text "json" ≠ text "protobuf" := by decide
  by_cases hp : name = text "protobuf"
  · simp [isSupported, getSupportedSerializer, createSerializer, hp]
  · by_cases hj : name = text "json"
    · simp [isSupported, getSupportedSerializer, createSerializer, hj, hne]
    · simp [isSupported, getSupportedSerializer, createSerializer, hp, hj, Ne.symm hp, Ne.symm hj]

end SerializerFactory

namespace SerializerManager

variable {S τ : Type}

/-- The calls of a manager of serializers. -/
inductive Op (S : Type)
  | registerSerializer (name : Text) (serializer : Option S)
  | getSerializer (name : Text)
  | removeSerializer (name : Text)
  | getRegisteredSerializers
  | clear
  | isRegistered (name : Text)
  | getSerializerCount
deriving DecidableEq, Repr

inductive Result (S : Type)
  | bool (b : Bool)
  | serializer (s : Option S)
  | names (names : List Text)
  | count (n : Nat)
  | void
deriving DecidableEq, Repr

/-- A null pointer and an empty name are refused before the lock. -/
def mode : Op S → SharedMutex.Mode
  | .registerSerializer name serializer =>
    if serializer.isNone || name.isEmpty then .free else .exclusive
  | .removeSerializer _ | .clear => .exclusive
  | .getSerializer _ | .getRegisteredSerializers | .isRegistered _ | .getSerializerCount => .shared

abbrev Steps (S : Type) := Body (NameTable Text S) (Result S)

def registerSerializer (name : Text) : Option S → Steps S
  | none => .done (.bool false)
  | some serializer =>
    if name.isEmpty then .done (.bool false)
    else .access id fun serializers =>
      if (serializers.find name).isSome then .done (.bool false)
      else .access (NameTable.put name serializer) fun _ => .done (.bool true)

def removeSerializer (name : Text) : Steps S :=
  .access id fun serializers =>
    if (serializers.find name).isSome then
      .access (fun serializers => (serializers.remove name).2) fun _ => .done (.bool true)
    else .done (.bool false)

def body : Op S → Steps S
  | .registerSerializer name serializer => registerSerializer name serializer
  | .getSerializer name => .access id fun serializers => .done (.serializer (serializers.find name))
  | .removeSerializer name => removeSerializer name
  | .getRegisteredSerializers => .access id fun serializers => .done (.names serializers.names)
  | .clear => .access (fun _ => .empty) fun _ => .done .void
  | .isRegistered name => .access id fun serializers => .done (.bool (serializers.find name).isSome)
  | .getSerializerCount => .access id fun serializers => .done (.count serializers.names.length)

def serializers : LockedObject (NameTable Text S) (Op S) (Result S) where
  mode := mode
  body := body
  reads := by
    intro op hshared
    cases op with
    | registerSerializer name serializer =>
      simp only [mode] at hshared
      split at hshared
      · cases hshared
      · cases hshared
    | removeSerializer name => cases hshared
    | clear => cases hshared
    | _ => exact .access fun _ => .done _
  stays := by
    intro op hfree
    cases op with
    | registerSerializer name serializer =>
      cases serializer with
      | none => exact ⟨_, rfl⟩
      | some serializer =>
        simp only [mode] at hfree
        split at hfree
        · rename_i hempty
          refine ⟨.bool false, if_pos ?_⟩
          simpa using hempty
        · cases hfree
    | _ => cases hfree

/-- Two registrations, each with the lock to itself. -/
def initializeDefaultSerializers {μ : Type} (type : MessageType μ) : List (Op (Serializer μ)) :=
  [.registerSerializer (text "protobuf") (some (SerializerFactory.createProtobufSerializer type)),
    .registerSerializer (text "json") (some (SerializerFactory.createJsonSerializer type))]

/-- A manager with the default serializers gives what the factory gives. -/
theorem find_defaults {μ : Type} (type : MessageType μ) (name : Text) :
    (serializers.replay .empty (initializeDefaultSerializers type)).find name =
      SerializerFactory.createSerializer type name := by
  change (((NameTable.empty.put (text "protobuf") _).put (text "json") _).find name) = _
  rw [NameTable.find_put, NameTable.find_put, NameTable.find_empty,
    SerializerFactory.createSerializer]
  by_cases hp : name = text "protobuf"
  · subst hp
    rfl
  · simp [hp]

/-- What one call that has returned changes about a name. -/
def standingStep (name : Text) (current : Option S) : Op S × Result S → Option S
  | (.registerSerializer name' (some serializer), .bool true) =>
    if name = name' then some serializer else current
  | (.removeSerializer name', .bool true) => if name = name' then none else current
  | (.clear, _) => none
  | _ => current

/-- The serializer that stands under a name, to go by what the calls have returned. -/
def standing (name : Text) (history : List (Op S × Result S)) : Option S :=
  history.foldl (standingStep name) none

/-- The names with a serializer, each of them once. -/
def Listed (names : List Text) (history : List (Op S × Result S)) : Prop :=
  names.Nodup ∧ ∀ name, name ∈ names ↔ standing name history ≠ none

/-- What a call returns after a history of calls. -/
def Answers (history : List (Op S × Result S)) : Op S → Result S → Prop
  | .registerSerializer name serializer, result =>
    result = .bool (serializer.isSome && !name.isEmpty && (standing name history).isNone)
  | .getSerializer name, result => result = .serializer (standing name history)
  | .removeSerializer name, result => result = .bool (standing name history).isSome
  | .getRegisteredSerializers, result => ∃ names, result = .names names ∧ Listed names history
  | .clear, result => result = .void
  | .isRegistered name, result => result = .bool (standing name history).isSome
  | .getSerializerCount, result => ∃ names, result = .count names.length ∧ Listed names history

theorem standing_concat (name : Text) (history : List (Op S × Result S)) (e : Op S × Result S) :
    standing name (history ++ [e]) = standingStep name (standing name history) e := by
  rw [standing, List.foldl_append]
  rfl

section Steps

variable {t : NameTable Text S} {history : List (Op S × Result S)}

theorem listed (hstand : ∀ name, t.find name = standing name history) : Listed t.names history := by
  refine ⟨t.distinct, ?_⟩
  intro name
  rw [← hstand name, ne_eq, NameTable.find_eq_none, not_not]

theorem exec_register (hstand : ∀ name, t.find name = standing name history) (name : Text)
    (serializer : Option S) :
    ∃ b t', (registerSerializer name serializer).exec t = (.bool b, t') ∧
      b = (serializer.isSome && !name.isEmpty && (standing name history).isNone) ∧
      ∀ name', t'.find name' = standingStep name' (standing name' history)
        (.registerSerializer name serializer, .bool b) := by
  cases serializer with
  | none => exact ⟨false, t, rfl, rfl, hstand⟩
  | some serializer =>
    rw [registerSerializer]
    split
    · rename_i hempty
      exact ⟨false, t, rfl, by simp [hempty], hstand⟩
    · rename_i hnonempty
      rw [Body.exec, ← hstand name]
      cases hfind : t.find name with
      | some old => exact ⟨false, t, by simp [Body.exec], by simp, hstand⟩
      | none =>
        refine ⟨true, t.put name serializer, by simp [Body.exec], ?_, ?_⟩
        · simpa using hnonempty
        · intro name'
          rw [NameTable.find_put, hstand name']
          rfl

theorem exec_remove (hstand : ∀ name, t.find name = standing name history) (name : Text) :
    ∃ b t', (removeSerializer name : Steps S).exec t = (.bool b, t') ∧
      b = (standing name history).isSome ∧
      ∀ name', t'.find name' = standingStep name' (standing name' history)
        (.removeSerializer name, .bool b) := by
  rw [removeSerializer, Body.exec, ← hstand name]
  cases hfind : t.find name with
  | none => exact ⟨false, t, by simp [Body.exec], rfl, hstand⟩
  | some old =>
    refine ⟨true, (t.remove name).2, by simp [Body.exec], rfl, ?_⟩
    intro name'
    rw [NameTable.find_remove, hstand name']
    rfl

/-- A call on a table that has what stands answers as it should, and leaves a table that has
what then stands. -/
theorem exec_answers (hstand : ∀ name, t.find name = standing name history) (op : Op S) :
    Answers history op ((serializers.body op).exec t).1 ∧
      ∀ name, ((serializers.body op).exec t).2.find name =
        standingStep name (standing name history) (op, ((serializers.body op).exec t).1) := by
  cases op with
  | registerSerializer name serializer =>
    obtain ⟨b, t', hexec, hb, hafter⟩ := exec_register hstand name serializer
    change Answers history _ ((registerSerializer name serializer).exec t).1 ∧
      ∀ name', ((registerSerializer name serializer).exec t).2.find name' = standingStep name' _
        (_, ((registerSerializer name serializer).exec t).1)
    rw [hexec]
    exact ⟨congrArg Result.bool hb, hafter⟩
  | removeSerializer name =>
    obtain ⟨b, t', hexec, hb, hafter⟩ := exec_remove hstand name
    change Answers history _ ((removeSerializer name).exec t).1 ∧
      ∀ name', ((removeSerializer name).exec t).2.find name' = standingStep name' _
        (_, ((removeSerializer name).exec t).1)
    rw [hexec]
    exact ⟨congrArg Result.bool hb, hafter⟩
  | getSerializer name => exact ⟨congrArg Result.serializer (hstand name), hstand⟩
  | isRegistered name =>
    exact ⟨congrArg (fun s : Option S => Result.bool s.isSome) (hstand name), hstand⟩
  | getRegisteredSerializers => exact ⟨⟨t.names, rfl, listed hstand⟩, hstand⟩
  | getSerializerCount => exact ⟨⟨t.names, rfl, listed hstand⟩, hstand⟩
  | clear => exact ⟨rfl, NameTable.find_empty⟩

end Steps

/-- The table after a history of calls one after the other. -/
theorem find_replay {history : List (Op S × Result S)}
    (h : history.map Prod.snd = serializers.results .empty (history.map Prod.fst)) (name : Text) :
    (serializers.replay .empty (history.map Prod.fst)).find name = standing name history := by
  induction history using List.reverseRecOn generalizing name with
  | nil => exact NameTable.find_empty name
  | append_singleton history e ih =>
    obtain ⟨hbefore, hresult⟩ := LockedObject.results_split h
    have hexec := (exec_answers (ih hbefore) e.1).2 name
    rw [hresult] at hexec
    rw [List.map_append, standing_concat]
    exact (congrArg (NameTable.find name) (LockedObject.replay_concat _ _ _ _)).trans hexec

variable [DecidableEq τ]

/-- Whatever threads call a manager, and however their calls overlap, each call returns what it
should after those that returned before it. -/
theorem calls_answered {acts : List (τ × LockedObject.Act (Op S))}
    {s : LockedObject.State τ (NameTable Text S) (Op S) (Result S)}
    (h : Transition.run (LockedObject.step serializers) (LockedObject.start .empty) acts = some s)
    {before after : List (τ × Op S × Result S)} {i : τ} {op : Op S} {result : Result S}
    (hreturned : s.returned = before ++ (i, op, result) :: after) :
    Answers (before.map Prod.snd) op result := by
  have hsequential := LockedObject.returned_sequential h
  have hhistory : (s.returned.map Prod.snd).map Prod.snd =
      serializers.results .empty ((s.returned.map Prod.snd).map Prod.fst) := by
    rw [List.map_map, List.map_map]
    exact hsequential
  rw [hreturned, List.map_append, List.map_cons] at hhistory
  obtain ⟨hbefore, hresult⟩ := LockedObject.results_split hhistory
  rw [← hresult]
  exact (exec_answers (find_replay hbefore) op).1

section Overlap

def json : Text := text "json"

/-- Two threads register under one name, and their calls overlap. -/
def overlapping : List (Bool × LockedObject.Act (Op Nat)) :=
  [(true, .call (.registerSerializer json (some 1))),
    (false, .call (.registerSerializer json (some 2))), (false, .enter), (false, .access),
    (false, .access), (false, .leave), (true, .enter), (true, .access), (true, .leave),
    (true, .call (.getSerializer json)), (true, .enter), (true, .access), (true, .leave)]

theorem calls_answered_overlapping :
    ∃ s, Transition.run (LockedObject.step serializers) (LockedObject.start .empty) overlapping =
        some s ∧
      s.returned = [(false, .registerSerializer json (some 2), .bool true),
        (true, .registerSerializer json (some 1), .bool false)] ++
        [(true, .getSerializer json, .serializer (some 2))] ∧
      Answers [(.registerSerializer json (some 2), .bool true),
        (.registerSerializer json (some 1), .bool false)] (.getSerializer json)
        (.serializer (some 2)) := by
  have h : (Transition.run (LockedObject.step serializers) (LockedObject.start .empty)
      overlapping).map (fun s => s.returned) =
      some ([(false, .registerSerializer json (some 2), .bool true),
        (true, .registerSerializer json (some 1), .bool false)] ++
        [(true, .getSerializer json, .serializer (some 2))]) := by
    decide +kernel
  obtain ⟨s, hrun, hreturned⟩ := Option.map_eq_some_iff.mp h
  exact ⟨s, hrun, hreturned, calls_answered hrun hreturned⟩

end Overlap

end SerializerManager

end Mprpc
