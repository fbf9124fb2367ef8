import BehaviorTree.Monitor.Framing

/-!
The events of a stream. An event is closed by the first blank line after it, and its payload consists of its data lines alone, so that
the payloads of a series of events are found one by one.
-/

set_option autoImplicit false

namespace BehaviorTree.Framing

namespace Line

def isBlank (l : Line) : Bool :=
  match l.chars?.map field with
  | some .blank => true
  | _ => false

def data? (l : Line) : Option (List Char) :=
  match l.chars?.map field with
  | some (.data d) => some d
  | _ => none

end Line

variable {l : Line} {parts : List (List Char)} {body r : List Line}

theorem feed_of_isBlank (h : l.isBlank = true) : feed parts l = (flush parts, []) := by
  unfold Line.isBlank at h
  unfold feed flush
  cases hchars : l.chars? with
  | none => simp [hchars] at h
  | some cs =>
    cases hfield : field cs with
    | blank => simp only [hfield]; split <;> rfl
    | data d => simp [hchars, hfield] at h
    | other => simp [hchars, hfield] at h

theorem feed_of_not_isBlank (h : l.isBlank = false) : feed parts l = (none, parts ++ l.data?.toList) := by
  unfold Line.isBlank at h
  unfold feed Line.data?
  cases hchars : l.chars? with
  | none => simp
  | some cs =>
    cases hfield : field cs with
    | blank => simp [hchars, hfield] at h
    | data d => simp [hfield]
    | other => simp [hfield]

theorem payloads_cons_of_isBlank (h : l.isBlank = true) : payloads parts (l :: r) = (flush parts).toList ++ payloads [] r := by
  rw [payloads, feed_of_isBlank h]
  cases flush parts <;> rfl

theorem payloads_cons_of_not_isBlank (h : l.isBlank = false) :
    payloads parts (l :: r) = payloads (parts ++ l.data?.toList) r := by
  rw [payloads, feed_of_not_isBlank h]

theorem payloads_append (h : ∀ l ∈ body, l.isBlank = false) :
    payloads parts (body ++ r) = payloads (parts ++ body.filterMap Line.data?) r := by
  induction body generalizing parts with
  | nil => simp
  | cons l body ih =>
    obtain ⟨hl, hbody⟩ := List.forall_mem_cons.1 h
    rw [List.cons_append, payloads_cons_of_not_isBlank hl, ih hbody, List.append_assoc]
    cases hdata : l.data? with
    | none => rw [List.filterMap_cons_none hdata]; rfl
    | some d => rw [List.filterMap_cons_some hdata]; rfl

structure Event where
  body : List Line
  closing : Line
  body_isBlank : ∀ l ∈ body, l.isBlank = false
  closing_isBlank : closing.isBlank = true

namespace Event

def lines (e : Event) : List Line := e.body ++ [e.closing]

def payload? (e : Event) : Option (List Char) := flush (e.body.filterMap Line.data?)

theorem payloads_lines_append (e : Event) : payloads [] (e.lines ++ r) = e.payload?.toList ++ payloads [] r := by
  rw [lines, List.append_assoc, payloads_append e.body_isBlank, List.nil_append, List.singleton_append,
    payloads_cons_of_isBlank e.closing_isBlank, payload?]

theorem payloads_lines (es : List Event) : payloads [] (es.flatMap lines) = es.filterMap payload? := by
  induction es with
  | nil => rfl
  | cons e es ih =>
    rw [List.flatMap_cons, payloads_lines_append, ih]
    cases hpayload : e.payload? with
    | none => rw [List.filterMap_cons_none hpayload]; rfl
    | some p => rw [List.filterMap_cons_some hpayload]; rfl

example : payloads [] ([": keepalive", "data: 1,", "data: 2", "", "event: x", "data:3", ""].map .text) =
    ["1,\n2".toList, "3".toList] := by
  decide

end Event

end BehaviorTree.Framing
