import StackMachine.CommandLine
import StackMachine.Proofs.CommandLine.Rendering
import StackMachine.Proofs.Listing.NormalForm

/-!
# Exit codes

Of one argument that names a file with some content there is at most one transcript, and none if the run goes
on for ever. Its exit code tells whether the content was refused, met a fault or halted, and its output is
determined by that and by the stack that is left (`exit_codes`). Every datum of this stack takes up one
line: what a program that was read from text can put there has no file name but of its own instructions.
-/

namespace StackMachine.CommandLine

open Listing (terminated splitOn_terminated)
open Text (OneLine)

variable {read : String → Content} {path : String} {bytes : ByteArray} {p : Program} {s : State}
  {t u : Transcript} {arguments : List String}

/-- Given enough steps, the command ends with this transcript. -/
def Ends (read : String → Content) (arguments : List String) (t : Transcript) : Prop :=
  ∃ budget, transcript budget read arguments = some t

/-- The bytes are a text that is a listing of the program. -/
def Loads (bytes : ByteArray) (p : Program) : Prop :=
  ∃ text : String, text.toUTF8 = bytes ∧ Program.ofListing Program.maxSize text = .ok p

/-- The bytes are no text, or a text that is not a listing. -/
def Refused (bytes : ByteArray) : Prop :=
  ¬bytes.IsValidUTF8 ∨
    ∃ text : String, text.toUTF8 = bytes ∧ ∃ e, Program.ofListing Program.maxSize text = .error e

/-- The program, run from its first datum under the standard limits, comes to the state without having met a
fault or halted. -/
def Passes (p : Program) (s : State) : Prop := ∃ n, (machine p).run n .initial = (s, .running)

/-- There is one line for each datum, with its index right-aligned to three columns in front of its text, and
what is printed falls into no other lines than these. -/
structure Shows (stack : List Datum) (lines : List String) : Prop where
  length : lines.length = stack.length
  line : ∀ k d line, stack[k]? = some d → lines[k]? = some line →
    line.toList = List.leftpad 3 ' ' (Nat.toDigits 10 k) ++ " | ".toList ++ d.render.toList
  oneLine : ∀ d ∈ stack, OneLine d.render.toList
  printed : (terminated lines).splitOn '\n' = lines.map String.toList ++ [[]]

/-! ### The content of the file -/

theorem fromUTF8?_eq_some_iff {text : String} :
    String.fromUTF8? bytes = some text ↔ text.toUTF8 = bytes := by
  unfold String.fromUTF8?
  constructor
  · intro h
    split at h
    · cases h
      rfl
    · cases h
  · rintro rfl
    exact dif_pos text.isValidUTF8

theorem fromUTF8?_eq_none_iff : String.fromUTF8? bytes = none ↔ ¬bytes.IsValidUTF8 := by
  unfold String.fromUTF8?
  split
  · next h => simp [h]
  · next h => simp [h]

theorem program_of_text {text : String} (h : text.toUTF8 = bytes) :
    program path (.ok bytes) = (Program.ofListing Program.maxSize text).mapError fun e =>
      s!"error: {path}: {e.message}" := by
  have htext : CommandLine.text (.ok bytes) = .ok text := by
    simp only [CommandLine.text, bind, Except.bind, fromUTF8?_eq_some_iff.2 h]
  rw [program, htext]
  dsimp only
  cases Program.ofListing Program.maxSize text <;> rfl

theorem program_of_loads (h : Loads bytes p) : program path (.ok bytes) = .ok p := by
  obtain ⟨text, htext, hp⟩ := h
  rw [program_of_text htext, hp]
  rfl

theorem program_of_refused (h : Refused bytes) (path : String) :
    ∃ line, program path (.ok bytes) = .error line := by
  rcases h with hinvalid | ⟨text, htext, e, he⟩
  · have htext : CommandLine.text (.ok bytes) = .error .notUtf8 := by
      simp only [CommandLine.text, bind, Except.bind, fromUTF8?_eq_none_iff.2 hinvalid]
    rw [program, htext]
    exact ⟨_, rfl⟩
  · rw [program_of_text htext, he]
    exact ⟨_, rfl⟩

/-- What the file holds is refused or loaded. -/
theorem refused_or_loads (bytes : ByteArray) : Refused bytes ∨ ∃ p, Loads bytes p := by
  cases htext : String.fromUTF8? bytes with
  | none => exact .inl (.inl (fromUTF8?_eq_none_iff.1 htext))
  | some text =>
    have hbytes := fromUTF8?_eq_some_iff.1 htext
    cases hp : Program.ofListing Program.maxSize text with
    | error e => exact .inl (.inr ⟨text, hbytes, e, hp⟩)
    | ok p => exact .inr ⟨p, text, hbytes, hp⟩

/-! ### Transcripts of a run -/

theorem ends_iff (hpath : path ≠ "--help" ∧ path ≠ "-h") (hread : read path = .ok bytes) :
    Ends read [path] t ↔ ∃ budget, execute budget path (.ok bytes) = some t := by
  have hcommand : Command.ofArguments [path] = .execute path := if_neg (by simp [hpath])
  unfold Ends transcript
  rw [hcommand]
  dsimp only
  rw [hread]

theorem execute_of_refused (h : Refused bytes) (path : String) :
    ∃ line, ∀ budget, execute budget path (.ok bytes) =
      some ⟨inputFailure, [loadingLine path], [line]⟩ := by
  obtain ⟨line, hline⟩ := program_of_refused h path
  refine ⟨line, fun budget => ?_⟩
  rw [execute, hline]

theorem execute_of_loads (h : Loads bytes p) (path : String) : ∃ record, ∀ budget,
    execute budget path (.ok bytes) = finished path ((machine p).observe record budget [] .initial).1
      ((machine p).run budget .initial).1 ((machine p).run budget .initial).2 := by
  refine ⟨fun lines o => lines ++ warningLines o.events, fun budget => ?_⟩
  rw [execute, program_of_loads h, ← Machine.observe_snd]

theorem execute_mono {budget budget' : Nat} (h : execute budget path (.ok bytes) = some t)
    (hle : budget ≤ budget') : execute budget' path (.ok bytes) = some t := by
  rcases refused_or_loads bytes with hrefused | ⟨p, hp⟩
  · obtain ⟨line, hline⟩ := execute_of_refused hrefused path
    rwa [hline] at h ⊢
  · obtain ⟨record, hrecord⟩ := execute_of_loads hp path
    rw [hrecord, ← Machine.observe_snd record] at h ⊢
    rwa [Machine.observe_mono ?_ hle]
    intro hrunning
    rw [hrunning] at h
    cases h

/-- What is to be seen of a command: it refuses the content, meets a fault, or shows the stack that the
machine halts with. -/
inductive Verdict (path : String) (bytes : ByteArray) : Nat → List String → Prop
  | refused : Refused bytes → Verdict path bytes inputFailure [loadingLine path]
  | faulted {p : Program} {s : State} {f : Fault} : Loads bytes p → Passes p s →
    ((machine p).step s).status = .faulted f →
    Verdict path bytes runtimeFailure [loadingLine path, runningLine]
  | halted {p : Program} {s : State} : Loads bytes p → Passes p s → p.opcodeAt? s.ip = some .halt →
    Verdict path bytes success (loadingLine path :: runningLine :: stackLines s.stack.bottomUp)

theorem step_of_halt (m : Machine) (hs : s.halted = false) (hop : m.program.opcodeAt? s.ip = some .halt) :
    (m.step s).status = .halted ∧ (m.next s).stack = s.stack := by
  obtain ⟨hnext, hstatus⟩ := Machine.step_of_ok hs hop rfl
  exact ⟨hstatus, by rw [hnext]; rfl⟩

theorem Passes.reachable (h : Passes p s) : (machine p).Reachable s ∧ s.halted = false := by
  obtain ⟨n, hn⟩ := h
  obtain ⟨hafter, hs⟩ := Machine.after_of_run_running hn rfl
  exact ⟨⟨n, hafter⟩, hs⟩

theorem verdict_of_execute {budget : Nat} (h : execute budget path (.ok bytes) = some t) :
    Verdict path bytes t.code t.output := by
  rcases refused_or_loads bytes with hrefused | ⟨p, hp⟩
  · obtain ⟨line, hline⟩ := execute_of_refused hrefused path
    rw [hline] at h
    cases h
    exact .refused hrefused
  · obtain ⟨record, hrecord⟩ := execute_of_loads hp path
    rw [hrecord] at h
    cases hrun : (machine p).run budget .initial with
    | mk u status =>
    rw [hrun] at h
    cases status with
    | running => cases h
    | faulted f =>
      cases h
      obtain ⟨k, s, hk, hf, -⟩ := Machine.exists_running_of_run hrun (by simp)
      exact .faulted hp ⟨k, hk⟩ hf
    | halted =>
      cases h
      obtain ⟨k, s, hk, hhalted, rfl⟩ := Machine.exists_running_of_run hrun (by simp)
      have hs : Passes p s := ⟨k, hk⟩
      obtain ⟨hreachable, hrunning⟩ := hs.reachable
      have hop : p.opcodeAt? s.ip = some .halt :=
        Machine.opcodeAt?_of_step_halted hreachable.fits hrunning hhalted
      rw [(step_of_halt (machine p) hrunning hop).2]
      exact .halted hp hs hop

theorem execute_of_verdict {code : Nat} {output : List String} (h : Verdict path bytes code output) :
    ∃ budget errors, execute budget path (.ok bytes) = some ⟨code, output, errors⟩ := by
  cases h with
  | refused hrefused =>
    obtain ⟨line, hline⟩ := execute_of_refused hrefused path
    exact ⟨0, [line], hline 0⟩
  | @faulted p s f hp hs hf =>
    obtain ⟨n, hn⟩ := hs
    obtain ⟨record, hrecord⟩ := execute_of_loads hp path
    have hrun := Machine.run_eq_of_running hn (by simp [hf])
    exact ⟨n + 1, _, by rw [hrecord, hrun, hf, finished]⟩
  | @halted p s hp hs hop =>
    obtain ⟨hhalted, hstack⟩ := step_of_halt (machine p) hs.reachable.2 hop
    obtain ⟨n, hn⟩ := hs
    obtain ⟨record, hrecord⟩ := execute_of_loads hp path
    have hrun := Machine.run_eq_of_running hn (by simp [hhalted])
    exact ⟨n + 1, _, by rw [hrecord, hrun, hhalted, finished, hstack]⟩

theorem Ends.verdict (hpath : path ≠ "--help" ∧ path ≠ "-h") (hread : read path = .ok bytes)
    (h : Ends read [path] t) : Verdict path bytes t.code t.output := by
  obtain ⟨budget, ht⟩ := (ends_iff hpath hread).1 h
  exact verdict_of_execute ht

theorem Verdict.exists_ends (hpath : path ≠ "--help" ∧ path ≠ "-h") (hread : read path = .ok bytes)
    {code : Nat} {output : List String} (h : Verdict path bytes code output) :
    ∃ t, Ends read [path] t ∧ t.code = code ∧ t.output = output := by
  obtain ⟨budget, errors, ht⟩ := execute_of_verdict h
  exact ⟨_, (ends_iff hpath hread).2 ⟨budget, ht⟩, rfl, rfl⟩

theorem Ends.unique (hpath : path ≠ "--help" ∧ path ≠ "-h") (hread : read path = .ok bytes)
    (ht : Ends read [path] t) (hu : Ends read [path] u) : t = u := by
  obtain ⟨budget, ht⟩ := (ends_iff hpath hread).1 ht
  obtain ⟨budget', hu⟩ := (ends_iff hpath hread).1 hu
  have ht' := execute_mono ht (Nat.le_max_left budget budget')
  rw [execute_mono hu (Nat.le_max_right budget budget')] at ht'
  exact (Option.some.inj ht').symm

theorem exists_ends_code_iff (hpath : path ≠ "--help" ∧ path ≠ "-h") (hread : read path = .ok bytes)
    {code : Nat} :
    (∃ t, Ends read [path] t ∧ t.code = code) ↔ ∃ output, Verdict path bytes code output := by
  constructor
  · rintro ⟨t, ht, rfl⟩
    exact ⟨t.output, ht.verdict hpath hread⟩
  · rintro ⟨output, h⟩
    obtain ⟨t, ht, hcode, -⟩ := h.exists_ends hpath hread
    exact ⟨t, ht, hcode⟩

/-! ### The lines of the stack -/

theorem toList_alignedIndex (k : Nat) :
    (alignedIndex k).toList = List.leftpad 3 ' ' (Nat.toDigits 10 k) := by
  unfold alignedIndex
  dsimp only
  rw [String.toList_append, String.toList_ofList, Nat.toString_eq_repr, ← String.length_toList,
    Nat.toList_repr]
  rfl

theorem oneLine_alignedIndex (k : Nat) : OneLine (alignedIndex k).toList := by
  rw [toList_alignedIndex]
  refine .append (fun c hc _ => List.eq_of_mem_replicate hc) ?_
  exact .of_isWord (Numeral.isWord_toDigits k)

def stackLine (d : Datum) (k : Nat) : String := s!"{alignedIndex k} | {d.render}"

theorem toList_stackLine (d : Datum) (k : Nat) :
    (stackLine d k).toList = (alignedIndex k).toList ++ " | ".toList ++ d.render.toList := by
  simp only [stackLine, String.toList_append]
  rfl

theorem getElem?_stackLines {stack : List Datum} {k : Nat} {d : Datum} (h : stack[k]? = some d) :
    (stackLines stack)[k]? = some (stackLine d k) := by
  rw [stackLines, List.getElem?_map, List.getElem?_zipIdx, h, Nat.zero_add]
  rfl

theorem shows_stackLines {stack : List Datum} (h : ∀ d ∈ stack, OneLine d.render.toList) :
    Shows stack (stackLines stack) where
  length := by rw [stackLines, List.length_map, List.length_zipIdx]
  line := by
    intro k d line hd hline
    rw [getElem?_stackLines hd, Option.some.injEq] at hline
    rw [← hline, toList_stackLine, toList_alignedIndex]
  oneLine := h
  printed := by
    refine splitOn_terminated fun line hline => ?_
    obtain ⟨⟨d, k⟩, hmem, rfl⟩ := List.mem_map.1 hline
    have hd : OneLine d.render.toList := h d (List.fst_mem_of_mem_zipIdx hmem)
    have hstackLine : OneLine (stackLine d k).toList := by
      rw [toList_stackLine]
      exact ((oneLine_alignedIndex k).append (by decide)).append hd
    exact hstackLine.newline_notMem

theorem Passes.oneLine (hs : Passes p s) (hp : Loads bytes p) :
    ∀ d ∈ s.stack.bottomUp, OneLine d.render.toList := by
  obtain ⟨text, -, hp⟩ := hp
  intro d hd
  have hscoped : Machine.Scoped p s :=
    hs.reachable.1.scoped fun n => Program.sound_of_ofListing hp n
  refine Datum.oneLine_render fun i hi => ?_
  have hi' : Datum.instruction i ∈ p.toList := hscoped.stack d (List.mem_reverse.1 hd) _ hi
  exact Program.writable_of_ofListing hp _ hi'

/-- The command ends with code `1` just if the file is refused, with code `3` just if the run meets a fault,
and with code `0` just if it comes to `halt`. Only then is the stack shown, and all of it. -/
theorem exit_codes (hpath : path ≠ "--help" ∧ path ≠ "-h") (hread : read path = .ok bytes) :
    (∀ t u, Ends read [path] t → Ends read [path] u → t = u) ∧
    ((∃ t, Ends read [path] t ∧ t.code = 1) ↔ Refused bytes) ∧
    ((∃ t, Ends read [path] t ∧ t.code = 3) ↔
      ∃ p s f, Loads bytes p ∧ Passes p s ∧ ((machine p).step s).status = .faulted f) ∧
    ((∃ t, Ends read [path] t ∧ t.code = 0) ↔
      ∃ p s, Loads bytes p ∧ Passes p s ∧ p.opcodeAt? s.ip = some .halt) ∧
    ∀ t, Ends read [path] t →
      (t.code = 1 ∧ t.output = [loadingLine path]) ∨
      (t.code = 3 ∧ t.output = [loadingLine path, runningLine]) ∨
      (t.code = 0 ∧ ∀ p s, Loads bytes p → Passes p s → p.opcodeAt? s.ip = some .halt →
        ∃ lines, t.output = loadingLine path :: runningLine :: lines ∧ Shows s.stack.bottomUp lines) := by
  refine ⟨fun t u ht hu => ht.unique hpath hread hu, ?_, ?_, ?_, ?_⟩
  · rw [exists_ends_code_iff hpath hread]
    constructor
    · rintro ⟨output, h⟩
      cases h with
      | refused h => exact h
    · exact fun h => ⟨_, .refused h⟩
  · rw [exists_ends_code_iff hpath hread]
    constructor
    · rintro ⟨output, h⟩
      cases h with
      | faulted hp hs hf => exact ⟨_, _, _, hp, hs, hf⟩
    · rintro ⟨p, s, f, hp, hs, hf⟩
      exact ⟨_, .faulted hp hs hf⟩
  · rw [exists_ends_code_iff hpath hread]
    constructor
    · rintro ⟨output, h⟩
      cases h with
      | halted hp hs hop => exact ⟨_, _, hp, hs, hop⟩
    · rintro ⟨p, s, hp, hs, hop⟩
      exact ⟨_, .halted hp hs hop⟩
  · rintro ⟨code, output, errors⟩ ht
    cases ht.verdict hpath hread with
    | refused => exact .inl ⟨rfl, rfl⟩
    | faulted => exact .inr (.inl ⟨rfl, rfl⟩)
    | halted =>
      refine .inr (.inr ⟨rfl, fun p s hp hs hop => ?_⟩)
      have hverdict : Verdict path bytes success _ := .halted hp hs hop
      obtain ⟨u, hu, -, houtput⟩ := hverdict.exists_ends hpath hread
      rw [ht.unique hpath hread hu]
      exact ⟨_, houtput, shows_stackLines (hs.oneLine hp)⟩

/-- The function at `2` gives back the list of its arguments. It is called with an instruction, and once more
with the list that holds it. -/
def listInside : Program :=
  ((((((((Builder.empty.opWith .jump 10).functionHeader 1 true).opWith .accessLocal 0).op .ret).opWith
    .function 2).opWith .function 2).constant (.instruction ⟨7, 2, "source.calc"⟩)).opWith
    (.call .plain) 1).opWith (.call .plain) 1 |>.op .halt |>.build

theorem exit_codes_listInside :
    ∃ text t, listInside.toListing = .ok text ∧ Ends (fun _ => .ok text.toUTF8) ["lists"] t ∧ t.code = 0 ∧
      t.output = ["Loading from lists...", "Running code...", "  0 | [[[7 2 source.calc]]]"] := by
  have hwritable : ∀ d ∈ listInside.toList, d.Writable := by decide +kernel
  obtain ⟨text, htext⟩ := Program.exists_toListing hwritable
  have hload : Loads text.toUTF8 listInside :=
    ⟨text, rfl, Program.ofListing_of_toListing htext (by decide)⟩
  have hrunning : ((machine listInside).run 10 .initial).2 = .running := by decide +kernel
  have hpass : Passes listInside ((machine listInside).run 10 .initial).1 := ⟨10, Prod.ext rfl hrunning⟩
  have hop : listInside.opcodeAt? ((machine listInside).run 10 .initial).1.ip = some .halt := by
    decide +kernel
  have hstack : ((machine listInside).run 10 .initial).1.stack.bottomUp =
      [.list [.list [.instruction ⟨7, 2, "source.calc"⟩]]] := by decide +kernel
  have hpath : "lists" ≠ "--help" ∧ "lists" ≠ "-h" := by decide
  obtain ⟨-, -, -, hhalted, houtput⟩ := @exit_codes (fun _ => .ok text.toUTF8) "lists" _ hpath rfl
  obtain ⟨t, ht, hcode⟩ := hhalted.2 ⟨_, _, hload, hpass, hop⟩
  refine ⟨text, t, htext, ht, hcode, ?_⟩
  rcases houtput t ht with ⟨h, -⟩ | ⟨h, -⟩ | ⟨-, h⟩
  · rw [hcode] at h
    cases h
  · rw [hcode] at h
    cases h
  · obtain ⟨lines, hlines, hshows⟩ := h _ _ hload hpass hop
    rw [hstack] at hshows
    obtain ⟨line, rfl⟩ := List.length_eq_one_iff.1 hshows.length
    have hline : line.toList = "  0 | [[[7 2 source.calc]]]".toList :=
      (hshows.line 0 _ _ rfl rfl).trans (by decide +kernel)
    rw [hlines, String.toList_inj.1 hline]
    rfl

end StackMachine.CommandLine
