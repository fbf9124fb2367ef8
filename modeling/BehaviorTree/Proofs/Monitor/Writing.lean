import BehaviorTree.Proofs.Monitor.Framing
import BehaviorTree.Proofs.Text.Half
import Mathlib.Data.List.DropRight

/-!
Payloads as they are written. Whatever a sender chooses (a space after the colon or none, returns at the ends of lines, text or bytes,
more blank lines than one) and whatever is put between its lines, the payloads are read as they were written.
-/

set_option autoImplicit false

namespace BehaviorTree.Framing

variable {cs d : List Char} {l : Line} {parts : List (List Char)} {ls ms : List Line}

/-- A line comes as its text or as the bytes of its text. -/
inductive Line.Holds (cs : List Char) : Line → Prop
  | text : Holds cs (.text (String.ofList cs))
  | bytes {bs : List Nat} (encoded : Text.utf8? cs = some bs) : Holds cs (.bytes bs)

def dataMark : List Char := "data:".toList

/-- Is this the line for a part of a payload? A space may follow the mark, and any number of returns the part. -/
def Line.Carries (l : Line) (d : List Char) : Prop :=
  ∃ space n, (space = [] ∨ space = [' ']) ∧ l.Holds (dataMark ++ (space ++ d) ++ List.replicate n '\r')

def Line.IsEmpty (l : Line) : Prop := ∃ n, l.Holds (List.replicate n '\r')

inductive Line.IsFiller : Line → Prop
  | nothing : IsFiller .nothing
  | comment {l : Line} {cs : List Char} (holds : l.Holds (':' :: cs)) : IsFiller l
  | other {l : Line} {cs : List Char} (holds : l.Holds cs) (visible : ∃ c ∈ cs, c ≠ '\r') (unmarked : ¬ dataMark <+: cs) : IsFiller l

/-- The parts of a payload, each of them on a line of its own. -/
structure Payload where
  parts : List (List Char)
  parts_ne_nil : parts ≠ []
  head_ne_space : ∀ d ∈ parts, d.head? ≠ some ' '
  last_ne_return : ∀ d ∈ parts, d.getLast? ≠ some '\r'

/-- The lines a sender writes for payloads. Blank lines close each of them; they may be missing after the last. -/
inductive Written : List Payload → List Line → Prop
  | nothing : Written [] []
  | unclosed (p : Payload) (body : List Line) (carries : List.Forall₂ Line.Carries body p.parts) : Written [p] body
  | closed (p : Payload) (ps : List Payload) (body rest : List Line) (carries : List.Forall₂ Line.Carries body p.parts)
      (blank : Line) (blanks : List Line) (empty : ∀ l ∈ blank :: blanks, l.IsEmpty) (written : Written ps rest) :
      Written (p :: ps) (body ++ blank :: (blanks ++ rest))

/-- Is the second list the first one with fillers put in? -/
inductive Padded : List Line → List Line → Prop
  | nothing : Padded [] []
  | keep (l : Line) {ls ms : List Line} (padded : Padded ls ms) : Padded (l :: ls) (l :: ms)
  | insert {l : Line} {ls ms : List Line} (filler : l.IsFiller) (padded : Padded ls ms) : Padded ls (l :: ms)

theorem Line.Holds.chars?_eq (h : l.Holds cs) : l.chars? = some cs := by
  cases h with
  | text => rw [Line.chars?, String.toList_ofList]
  | bytes hbytes =>
    obtain ⟨ds, rfl, rfl⟩ := Text.utf8?_eq_some.1 hbytes
    rw [Line.chars?, Text.utf8Replaced_utf8]

theorem trimReturns_append (h : cs.getLast? ≠ some '\r') (n : Nat) : trimReturns (cs ++ List.replicate n '\r') = cs := by
  have hall : ∀ c ∈ List.replicate n '\r', decide (c = '\r') = true := fun c hc => decide_eq_true (List.eq_of_mem_replicate hc)
  rw [trimReturns, List.reverse_append, List.reverse_replicate, List.dropWhile_append_of_pos hall]
  refine List.rdropWhile_eq_self_iff.2 fun hne hlast => h ?_
  rw [List.getLast?_eq_some_getLast hne, of_decide_eq_true hlast]

theorem trimReturns_replicate (n : Nat) : trimReturns (List.replicate n '\r') = [] := @trimReturns_append [] nofun n

theorem trimReturns_prefix (cs : List Char) : trimReturns cs <+: cs := List.rdropWhile_prefix _ _

theorem afterColon_of_head (h : d.head? ≠ some ' ') : afterColon d = d := by
  cases d with
  | nil => rfl
  | cons c d => exact List.dropWhile_cons_of_neg (by simpa using h)

theorem field_replicate (n : Nat) : field (List.replicate n '\r') = .blank := by rw [field, trimReturns_replicate]

theorem field_dataMark (hlast : (dataMark ++ cs).getLast? ≠ some '\r') (n : Nat) :
    field (dataMark ++ cs ++ List.replicate n '\r') = .data (afterColon cs) := by
  rw [field, trimReturns_append hlast]
  rfl

theorem field_of_unmarked (hvisible : ∃ c ∈ cs, c ≠ '\r') (hmark : ¬ dataMark <+: cs) : field cs = .other := by
  unfold field
  split
  · rename_i hnone
    obtain ⟨c, hc, hne⟩ := hvisible
    exact absurd (of_decide_eq_true (List.rdropWhile_eq_nil_iff.1 hnone c hc)) hne
  · rename_i r hdata
    have hprefix := trimReturns_prefix cs
    rw [hdata] at hprefix
    exact absurd ((List.prefix_append dataMark r).trans hprefix) hmark
  · rfl

theorem Line.IsEmpty.isBlank (h : l.IsEmpty) : l.isBlank = true := by
  obtain ⟨n, hl⟩ := h
  rw [Line.isBlank, hl.chars?_eq, Option.map_some, field_replicate]

theorem Line.Carries.field_eq (h : l.Carries d) (hhead : d.head? ≠ some ' ') (hlast : d.getLast? ≠ some '\r') :
    l.chars?.map field = some (.data d) := by
  obtain ⟨space, n, hspace, hl⟩ := h
  have hend : (dataMark ++ (space ++ d)).getLast? ≠ some '\r' := by
    rcases hspace with rfl | rfl
    · cases d <;> simp_all [dataMark]
    · cases d <;> simp_all [dataMark]
  have hskip : afterColon (space ++ d) = d := by
    rcases hspace with rfl | rfl
    · exact afterColon_of_head hhead
    · exact afterColon_of_head hhead
  rw [hl.chars?_eq, Option.map_some, field_dataMark hend, hskip]

theorem Line.IsFiller.tells_nothing (h : l.IsFiller) : l.isBlank = false ∧ l.data? = none := by
  cases h with
  | nothing => exact ⟨rfl, rfl⟩
  | @comment _ cs hl =>
    have hother : field (':' :: cs) = .other := field_of_unmarked ⟨':', List.mem_cons_self, by decide⟩ (by simp [dataMark])
    simp [Line.isBlank, Line.data?, hl.chars?_eq, hother]
  | other hl hvisible hmark => simp [Line.isBlank, Line.data?, hl.chars?_eq, field_of_unmarked hvisible hmark]

theorem payloads_filler (h : l.IsFiller) : payloads parts (l :: ms) = payloads parts ms := by
  obtain ⟨hblank, hdata⟩ := h.tells_nothing
  rw [payloads_cons_of_not_isBlank hblank, hdata, Option.toList_none, List.append_nil]

theorem payloads_of_padded (h : Padded ls ms) : payloads parts ms = payloads parts ls := by
  induction h generalizing parts with
  | nothing => rfl
  | keep l _ ih =>
    cases hblank : l.isBlank with
    | true => rw [payloads_cons_of_isBlank hblank, payloads_cons_of_isBlank hblank, ih]
    | false => rw [payloads_cons_of_not_isBlank hblank, payloads_cons_of_not_isBlank hblank, ih]
  | insert hfiller _ ih => rw [payloads_filler hfiller, ih]

theorem payloads_blanks (h : ∀ l ∈ ls, l.IsEmpty) : payloads [] (ls ++ ms) = payloads [] ms := by
  induction ls with
  | nil => rfl
  | cons l ls ih =>
    obtain ⟨hl, hls⟩ := List.forall_mem_cons.1 h
    rw [List.cons_append, payloads_cons_of_isBlank hl.isBlank, ih hls]
    rfl

theorem filterMap_data? (h : List.Forall₂ Line.Carries ls parts) (hhead : ∀ d ∈ parts, d.head? ≠ some ' ')
    (hlast : ∀ d ∈ parts, d.getLast? ≠ some '\r') : (∀ l ∈ ls, l.isBlank = false) ∧ ls.filterMap Line.data? = parts := by
  induction h with
  | nil => exact ⟨nofun, rfl⟩
  | cons hl _ ih =>
    rw [List.forall_mem_cons] at hhead hlast
    obtain ⟨hblank, hparts⟩ := ih hhead.2 hlast.2
    have hfield := hl.field_eq hhead.1 hlast.1
    refine ⟨List.forall_mem_cons.2 ⟨?_, hblank⟩, ?_⟩
    · rw [Line.isBlank, hfield]
    · rw [List.filterMap_cons_some (by rw [Line.data?, hfield]), hparts]

theorem Payload.payloads_body {p : Payload} (h : List.Forall₂ Line.Carries ls p.parts) :
    payloads [] (ls ++ ms) = payloads p.parts ms := by
  obtain ⟨hblank, hparts⟩ := filterMap_data? h p.head_ne_space p.last_ne_return
  rw [payloads_append hblank, hparts, List.nil_append]

theorem Payload.flush_parts (p : Payload) : flush p.parts = some (joined p.parts) := by
  rw [flush, if_neg (by rw [List.isEmpty_iff]; exact p.parts_ne_nil)]

theorem payloads_of_written {ps : List Payload} (h : Written ps ls) : payloads [] ls = ps.map fun p => joined p.parts := by
  induction h with
  | nothing => rfl
  | unclosed p body hbody =>
    have hread : payloads [] (body ++ []) = payloads p.parts [] := Payload.payloads_body hbody
    rw [List.append_nil] at hread
    rw [hread, payloads, p.flush_parts]
    rfl
  | closed p ps body rest hbody blank blanks hempty _ ih =>
    obtain ⟨hblank, hblanks⟩ := List.forall_mem_cons.1 hempty
    rw [Payload.payloads_body hbody, payloads_cons_of_isBlank hblank.isBlank, p.flush_parts, payloads_blanks hblanks, ih]
    rfl

/-- Payloads are read as they were written, whatever fillers stand between their lines. -/
theorem written_payloads_are_read {ps : List Payload} (hwritten : Written ps ls) (hpadded : Padded ls ms) :
    payloads [] ms = ps.map fun p => joined p.parts := by
  rw [payloads_of_padded hpadded, payloads_of_written hwritten]

def servedPayloads : List Payload :=
  [{ parts := ["[1,".toList, [], "2]".toList], parts_ne_nil := by decide, head_ne_space := by decide, last_ne_return := by decide },
    { parts := ["\"é\"".toList], parts_ne_nil := by decide, head_ne_space := by decide, last_ne_return := by decide }]

def servedLines : List Line :=
  [.text ": hello", .text "data: [1,", .nothing, .text "data: \r", .bytes (Text.utf8 "data:2]\r\r".toList), .text "id:7",
    .text "", .bytes (Text.utf8 ['\r']), .bytes (Text.utf8 "data:\"é\"".toList), .text "id:7"]

theorem servedLines_are_read :
    ∃ ls, Written servedPayloads ls ∧ Padded ls servedLines ∧
      payloads [] servedLines = ["[1,\n\n2]".toList, "\"é\"".toList] := by
  have hwritten : Written servedPayloads _ :=
    .closed _ _ _ _
      (.cons ⟨[' '], 0, .inr rfl, .text⟩ (.cons ⟨[' '], 1, .inr rfl, .text⟩ (.cons ⟨[], 2, .inl rfl, .bytes rfl⟩ .nil)))
      (.text "") [.bytes (Text.utf8 ['\r'])]
      (List.forall_mem_cons.2 ⟨⟨0, .text⟩, List.forall_mem_singleton.2 ⟨1, .bytes rfl⟩⟩)
      (.unclosed _ _ (.cons ⟨[], 0, .inl rfl, .bytes rfl⟩ .nil))
  have hcomment : (Line.text ": hello").IsFiller := .comment (.text : Line.Holds ": hello".toList _)
  have hother : (Line.text "id:7").IsFiller :=
    .other (.text : Line.Holds ['i', 'd', ':', '7'] _) ⟨'i', List.mem_cons_self, by decide⟩ (by simp [dataMark])
  have hpadded : Padded _ servedLines :=
    .insert hcomment (.keep _ (.insert .nothing (.keep _ (.keep _ (.insert hother (.keep _ (.keep _ (.keep _
      (.insert hother .nothing)))))))))
  exact ⟨_, hwritten, hpadded, written_payloads_are_read hwritten hpadded⟩

end BehaviorTree.Framing
