import TaskFiring.Proofs.Identifiers
import TaskFiring.Proofs.Printing
import TaskFiring.Proofs.Records
import TaskFiring.Proofs.Stamps
import TaskFiring.Task.Json

/-!
The JSON form of a task survives a round trip. Whatever is read of a text is of a kind that is
written faithfully: a stop action that is not the spelling of another, a result that nests no
deeper than a reader allows, a time that can be told. Each such task is read from its form.
-/

namespace TaskFiring

/-! Result trees. -/

namespace OperationResult

mutual

/-- The containers that stand one in the other in the form of a tree; a tree without parts has
no list of them. -/
def nesting : OperationResult → Nat
  | .node _ _ _ subresults => nestingList subresults + 1

def nestingList : List OperationResult → Nat
  | [] => 0
  | r :: rs => max (nesting r + 1) (nestingList rs)

end

theorem nestingList_le_iff {rs : List OperationResult} {n : Nat} :
    nestingList rs ≤ n ↔ ∀ r ∈ rs, r.nesting + 1 ≤ n := by
  induction rs with
  | nil => simp [nestingList]
  | cons r rs ih => rw [nestingList, Nat.max_le, ih, List.forall_mem_cons]

theorem toJsonList_eq_map (rs : List OperationResult) : toJsonList rs = rs.map toJson := by
  induction rs with
  | nil => rfl
  | cons r rs ih => rw [toJsonList, ih, List.map_cons]

/-- A tree that is read nests no deeper than there was room for. -/
theorem nesting_le_of_ofJson? (room : Nat) :
    (∀ j r, ofJson? room j = some r → r.nesting ≤ room) ∧
      (∀ j rs, listOfJson? room j = some rs → nestingList rs ≤ room) := by
  induction room with
  | zero => exact ⟨fun _ _ h => (nomatch h), fun _ _ h => (nomatch h)⟩
  | succ room ih =>
      refine ⟨?node, ?list⟩
      case node =>
        intro j r h
        rw [ofJson?] at h
        obtain ⟨fields, -, h⟩ := Option.bind_eq_some_iff.mp h
        split at h
        · next subresults =>
          obtain ⟨operation, -, h⟩ := Option.bind_eq_some_iff.mp h
          obtain ⟨status, -, h⟩ := Option.bind_eq_some_iff.mp h
          obtain ⟨message, -, h⟩ := Option.bind_eq_some_iff.mp h
          obtain ⟨rs, hparts, h⟩ := Option.bind_eq_some_iff.mp h
          cases h
          have hrs : nestingList rs ≤ room := by
            cases subresults with
            | none =>
                cases hparts
                exact Nat.zero_le _
            | some j => exact ih.2 j rs hparts
          exact Nat.succ_le_succ hrs
        · cases h
      case list =>
        intro j rs h
        rw [nestingList_le_iff]
        intro r hr
        obtain ⟨j, hj⟩ := Json.read_of_mem_list? h r hr
        exact Nat.succ_le_succ (ih.1 j r hj)

theorem fields?_toJson (operation : String) (status : ResultStatus) (message : Option String)
    (subresults : List OperationResult) :
    (toJson (.node operation status message subresults)).fields? fieldNames
      = some [some (.str operation), some (.str status.name), message.map Json.str,
          if subresults.isEmpty then none else some (.array (toJsonList subresults))] := by
  cases message <;> cases subresults <;>
  · rw [toJson, Json.fields?_record (by simp)]
    rfl

theorem statusOfJson?_name (room : Nat) (status : ResultStatus) :
    statusOfJson? room (.str status.name) = some status := by
  cases room <;> cases status <;> rfl

/-- A tree is read from its form where there is room for it. -/
theorem ofJson?_toJson (room : Nat) :
    (∀ r : OperationResult, r.nesting ≤ room → ofJson? room r.toJson = some r) ∧
      (∀ rs, rs ≠ [] → nestingList rs ≤ room →
        listOfJson? room (.array (toJsonList rs)) = some rs) := by
  induction room with
  | zero =>
      refine ⟨fun r hr => ?_, fun rs hne hrs => ?_⟩
      · cases r
        cases hr
      · cases rs with
        | nil => exact absurd rfl hne
        | cons r rs => exact absurd (nestingList_le_iff.mp hrs r List.mem_cons_self) (by omega)
  | succ room ih =>
      refine ⟨?node, ?list⟩
      case node =>
        intro r hr
        obtain ⟨operation, status, message, rs⟩ := r
        have hparts : Json.withDefault [] (listOfJson? room)
            (if rs.isEmpty then none else some (.array (toJsonList rs))) = some rs := by
          cases rs with
          | nil => rfl
          | cons r rs => exact ih.2 _ (List.cons_ne_nil r rs) (Nat.le_of_succ_le_succ hr)
        have hmessage : Json.optional Json.text? (message.map Json.str) = some message := by
          cases message <;> rfl
        rw [ofJson?, fields?_toJson]
        dsimp only [Option.bind_eq_bind, Option.bind_some, Json.required]
        rw [Json.text?_str, statusOfJson?_name, hmessage, hparts]
        rfl
      case list =>
        intro rs _ hrs
        rw [listOfJson?, toJsonList_eq_map]
        apply Json.list?_list
        intro r hr
        exact ih.1 r (Nat.le_of_succ_le_succ (nestingList_le_iff.mp hrs r hr))

mutual

theorem printable_toJson : ∀ r : OperationResult, r.toJson.Printable
  | .node operation status message subresults => by
      have hparts : (Json.array (toJsonList subresults)).Printable :=
        allPrintable_toJsonList subresults
      rw [toJson, Json.printable_record]
      cases message <;> cases subresults <;> simp [hparts]

theorem allPrintable_toJsonList : ∀ rs : List OperationResult,
    Json.AllPrintable (toJsonList rs)
  | [] => trivial
  | r :: rs => ⟨printable_toJson r, allPrintable_toJsonList rs⟩

end

/-- A tree on its own survives the round trip as well. -/
theorem ofText?_render {s : String} {r : OperationResult} (h : ofText? s = some r) :
    ofText? r.toJson.render = some r := by
  obtain ⟨j, -, hj⟩ := Option.bind_eq_some_iff.mp h
  have hroom : r.nesting ≤ Json.maxNesting := (nesting_le_of_ofJson? _).1 j r hj
  rw [ofText?, Json.parse_render r.printable_toJson, Option.bind_some]
  exact (ofJson?_toJson _).1 r hroom

end OperationResult

/-! Constraints. -/

namespace GroupConstraint

theorem ofJson?_toJson (g : GroupConstraint) : ofJson? g.toJson = some g := by
  have hlimit : Json.optional Json.half? (some (.option (fun n => .nat n.toNat) g.limit))
      = some g.limit := Json.optional_option rfl fun n _ => Json.half?_nat n
  have hfields : g.toJson.fields? ["group", "limit"]
      = some [some (.str g.group), some (.option (fun n => .nat n.toNat) g.limit)] :=
    Json.fields?_record_names (by simp)
  rw [ofJson?, hfields]
  simp [Json.required, Json.text?_str, hlimit]

theorem printable_toJson (g : GroupConstraint) : g.toJson.Printable := by
  simp [toJson, Json.printable_record, Json.printable_option]

end GroupConstraint

namespace Constraints

theorem ofJson?_toJson (c : Constraints) : ofJson? c.toJson = some c := by
  have hgroups : (Json.list GroupConstraint.toJson c.groups).list? GroupConstraint.ofJson?
      = some c.groups := Json.list?_list fun g _ => g.ofJson?_toJson
  have hretry : Json.optional Json.word? (some (.option (fun n => .nat n.toNat) c.retryAfter))
      = some c.retryAfter := Json.optional_option rfl fun n _ => Json.word?_nat n
  have hfields : c.toJson.fields? ["groups", "retry_after_secs"]
      = some [some (.list GroupConstraint.toJson c.groups),
          some (.option (fun n => .nat n.toNat) c.retryAfter)] :=
    Json.fields?_record_names (by simp)
  rw [ofJson?, hfields]
  simp [Json.required, hgroups, hretry]

theorem printable_toJson (c : Constraints) : c.toJson.Printable := by
  simp [toJson, Json.printable_record, Json.printable_option, Json.printable_list,
    GroupConstraint.printable_toJson]

end Constraints

/-! Tasks. -/

/-- A word that is read is read so again. -/
theorem StopAction.ofText_text_ofText (raw : String) :
    ofText (ofText raw).text = ofText raw := by
  cases h : ofText raw with
  | unrecognized raw' =>
      have hraw : raw' = raw := by
        unfold ofText at h
        dsimp only at h
        split at h
        · cases h
        split at h
        · cases h
        split at h
        · cases h
        split at h
        · cases h
        · cases h
          rfl
      rw [text, hraw, h, hraw]
  | _ => decide +kernel

namespace Task

/-- Some text is read as the task. -/
structure Readable (t : Task) : Prop where
  stopAction : ∀ a ∈ t.stopAction, StopAction.ofText a.text = a
  result : ∀ r ∈ t.result, r.nesting ≤ Json.maxNesting - 1
  completedAt : ∀ time ∈ t.completedAt, time.Tellable

theorem readable_of_ofJson? {j : Json} {t : Task} (h : ofJson? j = some t) : t.Readable := by
  unfold ofJson? at h
  obtain ⟨fields, -, h⟩ := Option.bind_eq_some_iff.mp h
  split at h
  · next oid name version parent owner handlerRef scheduling execution node stopAction recurring
      binding constraints result completedAt =>
    obtain ⟨oid, -, h⟩ := Option.bind_eq_some_iff.mp h
    obtain ⟨name, -, h⟩ := Option.bind_eq_some_iff.mp h
    obtain ⟨version, -, h⟩ := Option.bind_eq_some_iff.mp h
    obtain ⟨parent, -, h⟩ := Option.bind_eq_some_iff.mp h
    obtain ⟨owner, -, h⟩ := Option.bind_eq_some_iff.mp h
    obtain ⟨handlerRef, -, h⟩ := Option.bind_eq_some_iff.mp h
    obtain ⟨scheduling, -, h⟩ := Option.bind_eq_some_iff.mp h
    obtain ⟨execution, -, h⟩ := Option.bind_eq_some_iff.mp h
    obtain ⟨node, -, h⟩ := Option.bind_eq_some_iff.mp h
    obtain ⟨stopAction, hstop, h⟩ := Option.bind_eq_some_iff.mp h
    obtain ⟨recurring, -, h⟩ := Option.bind_eq_some_iff.mp h
    obtain ⟨binding, -, h⟩ := Option.bind_eq_some_iff.mp h
    obtain ⟨constraints, -, h⟩ := Option.bind_eq_some_iff.mp h
    obtain ⟨result, hresult, h⟩ := Option.bind_eq_some_iff.mp h
    obtain ⟨completedAt, htime, h⟩ := Option.bind_eq_some_iff.mp h
    cases h
    refine ⟨?_, ?_, ?_⟩
    · intro a ha
      obtain ⟨j, hj⟩ := Json.read_of_mem_optional hstop a ha
      obtain ⟨raw, -, rfl⟩ := Option.map_eq_some_iff.mp hj
      exact StopAction.ofText_text_ofText raw
    · intro r hr
      obtain ⟨j, hj⟩ := Json.read_of_mem_optional hresult r hr
      exact (OperationResult.nesting_le_of_ofJson? _).1 j r hj
    · intro time ht
      obtain ⟨j, hj⟩ := Json.read_of_mem_optional htime time ht
      obtain ⟨s, -, hs⟩ := Option.bind_eq_some_iff.mp hj
      exact Instant.tellable_of_ofStampChars hs
  · cases h

/-- A readable task is read from its form. -/
theorem ofJson?_toJson {t : Task} (ht : t.Readable) : ofJson? t.toJson = some t := by
  have hparent : Json.optional Id.ofJson? (some (.option Id.toJson t.parent)) = some t.parent :=
    Json.optional_option rfl fun id _ => id.ofJson?_toJson
  have howner : Json.optional Json.text? (some (.option .str t.owner)) = some t.owner :=
    Json.optional_option rfl fun s _ => Json.text?_str s
  have hnode : Json.optional (fun j => j.text?.map NodeId.mk)
      (some (.option (fun n => .str n.name) t.node)) = some t.node :=
    Json.optional_option rfl fun _ _ => rfl
  have hstop : Json.optional (fun j => j.text?.map StopAction.ofText)
      (some (.option (fun a => .str a.text) t.stopAction)) = some t.stopAction :=
    Json.optional_option rfl fun a ha => congrArg some (ht.stopAction a ha)
  have hconstraints : Json.optional Constraints.ofJson?
      (some (.option Constraints.toJson t.constraints)) = some t.constraints :=
    Json.optional_option rfl fun c _ => c.ofJson?_toJson
  have hresult : Json.optional (OperationResult.ofJson? (Json.maxNesting - 1))
      (some (.option OperationResult.toJson t.result)) = some t.result :=
    Json.optional_option rfl fun r hr => (OperationResult.ofJson?_toJson _).1 r (ht.result r hr)
  have htold (time : Instant) (h : time ∈ t.completedAt) :
      (Json.str time.stamp).text?.bind Instant.ofStamp? = some time := by
    rw [Json.text?_str, Option.bind_some, Instant.ofStamp?_stamp (ht.completedAt time h)]
  have htime : Json.optional (fun j => j.text?.bind Instant.ofStamp?)
      (some (.option (fun time => .str time.stamp) t.completedAt)) = some t.completedAt :=
    Json.optional_option rfl htold
  have hscheduling : (Json.str t.scheduling.name).case? SchedulingState.all SchedulingState.name
      = some t.scheduling := by cases t.scheduling <;> rfl
  have hexecution : (Json.str t.execution.name).case? ExecutionState.all ExecutionState.name
      = some t.execution := by cases t.execution <;> rfl
  have hbinding : (Json.str t.binding.name).case? Binding.all Binding.name = some t.binding := by
    cases t.binding <;> rfl
  have hfields : t.toJson.fields? fieldNames = some [
      some t.oid.toJson, some (.str t.name), some (.nat t.version.toNat),
      some (.option Id.toJson t.parent), some (.option .str t.owner), some (.str t.handlerRef),
      some (.str t.scheduling.name), some (.str t.execution.name),
      some (.option (fun n => .str n.name) t.node),
      some (.option (fun a => .str a.text) t.stopAction), some (.bool t.recurring),
      some (.str t.binding.name), some (.option Constraints.toJson t.constraints),
      some (.option OperationResult.toJson t.result),
      some (.option (fun time => .str time.stamp) t.completedAt)] :=
    Json.fields?_record_names (by simp)
  rw [ofJson?, hfields, Option.bind_eq_bind, Option.bind_some]
  dsimp only [Json.required, Json.withDefault]
  simp only [Option.bind_eq_bind, Option.bind_some, Id.ofJson?_toJson, Json.text?_str,
    Json.word?_nat, Json.bool?, hparent, howner, hscheduling, hexecution, hnode, hstop, hbinding,
    hconstraints, hresult, htime]

theorem printable_toJson (t : Task) : t.toJson.Printable := by
  have hid : ∀ id : TaskOid, id.toJson.Printable := fun id => Json.printable_str id.digits
  simp [toJson, Json.printable_record, Json.printable_option, hid,
    OperationResult.printable_toJson, Constraints.printable_toJson]

/-- A readable task is got back from its text. -/
theorem ofText?_render {t : Task} (ht : t.Readable) : ofText? t.toJson.render = some t := by
  rw [ofText?, Json.parse_render t.printable_toJson, Option.bind_some, ofJson?_toJson ht]

theorem readable_iff {t : Task} : t.Readable ↔ ∃ s, ofText? s = some t := by
  constructor
  · intro ht
    exact ⟨t.toJson.render, ofText?_render ht⟩
  · rintro ⟨s, h⟩
    obtain ⟨j, -, hj⟩ := Option.bind_eq_some_iff.mp h
    exact readable_of_ofJson? hj

/-- Whatever text a task was read from, it is got back from the text written of it, and is
then written alike. -/
theorem text_round_trip {s : String} {t : Task} (h : ofText? s = some t) :
    ∃ t', ofText? t.toJson.render = some t' ∧ t' = t ∧ t'.toJson.render = t.toJson.render :=
  ⟨t, ofText?_render (readable_iff.mpr ⟨s, h⟩), rfl, rfl⟩

/-- A text unlike any that is written: a key that no task has, records as arrays, a state in a
container of its own, an identifier in small letters, a surrogate pair, a leap second off UTC. -/
def looseText : String :=
  "\x7b\"version\":18446744073709551615, \"oid\":\"00000000000000000000000abc\",
    \"name\":\"a\\u0007\\ud83d\\ude00\", \"handler_ref\":\"demo\", \"extra\":[1.5e3,\x7b\x7d],
    \"scheduling_state\":\"READY\", \"execution_state\":\x7b\"RUNNABLE\":null\x7d,
    \"thread_stop_action\":\"Later\", \"execution_constraints\":[[[\"g\",2]]],
    \"result\":[\"op\",\"SUCCESS\",null,[[\"part\",\"FATAL_ERROR\",\"why\"]]],
    \"completed_at\":\"2016-12-31t23:59:60.25 +01:00\"\x7d"

def looseTask : Task where
  oid := ⟨10604⟩
  name := "a\x07😀"
  version := 18446744073709551615
  handlerRef := "demo"
  stopAction := some (.unrecognized "Later")
  constraints := some ⟨[⟨"g", some 2⟩], none⟩
  result := some (.node "op" .success none [.node "part" .fatalError (some "why") []])
  completedAt := some ⟨1483225199, 1250000000, by decide⟩

theorem text_round_trip_loose :
    ofText? looseText = some looseTask ∧
      ∃ t, ofText? looseTask.toJson.render = some t ∧ t = looseTask ∧
        t.toJson.render = looseTask.toJson.render := by
  have h : ofText? looseText = some looseTask := by
    rw [ofText?, Json.parse, looseText, String.toList_ofList]
    decide +kernel
  exact ⟨h, text_round_trip h⟩

end Task

end TaskFiring
