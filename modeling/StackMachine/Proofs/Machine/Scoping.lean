import StackMachine.Proofs.Listing.RoundTrip
import StackMachine.Proofs.Machine.Housing

/-!
# Scopes are nested

A program that was read from text names no frame. Functions are only made while it runs, each in the scope
of the moment, so what a state names are frames that it has (`Scoped`). The frames around them end in the
global one (`scopes_nested`).
-/

namespace StackMachine

open Listing

/-! ### Data that name frames as functions do -/

namespace Datum

/-- A datum that names frames among the first `n` and instructions of the program only. -/
def Proper (p : Program) (n : Nat) : Datum → Prop
  | .scope _ => False
  | .function f => f.scope < n
  | .instruction i => .instruction i ∈ p.toList
  | _ => True

theorem lasting_proper (p : Program) : Lasting (Proper p) where
  mono {n k d} h hnk := by
    cases d with
    | function f => exact Nat.lt_of_lt_of_le h hnk
    | scope => exact h.elim
    | instruction i => exact h
    | null | integer | real | list => trivial
  function := Iff.rfl
  list _ _ := trivial
  plain {d} h n := by
    cases d with
    | integer | real | list => trivial
    | null | instruction | function | scope => exact h.elim

/-- All data inside a datum name frames among the first `n` and instructions of the program only. -/
def Sound (p : Program) (n : Nat) (d : Datum) : Prop := d.Throughout (Proper p n)

end Datum

/-! ### Programs read from text -/

theorem Listing.Fields.sound {kind : RecordKind} {ws : List Text.Word} {d : Datum} {p : Program} {n : Nat}
    (h : Fields kind ws d) (hd : d ∈ p.toList) : d.Sound p n := by
  cases h with
  | instruction => exact .of_self hd (by simp)
  | integer | real | text | null => exact .of_self trivial (by simp)

theorem Listing.Records.exists_fields {ws : List Text.Word} {ds : List Datum} (h : Records ws ds) :
    ∀ d ∈ ds, ∃ kind vs, Fields kind vs d := by
  induction h with
  | nil =>
    intro d hd
    cases hd
  | cons _ hfields _ ih =>
    intro d hd
    rcases List.mem_cons.1 hd with rfl | hd
    · exact ⟨_, _, hfields⟩
    · exact ih d hd

theorem Program.sound_of_ofListing {capacity : Nat} {text : String} {p : Program}
    (hp : Program.ofListing capacity text = .ok p) (n : Nat) : ∀ d ∈ p.toList, d.Sound p n := by
  obtain ⟨ws, stop, rest, -, hws, -, -⟩ := listed_of_ofListing hp
  intro d hd
  obtain ⟨kind, vs, hfields⟩ := hws.exists_fields d hd
  exact hfields.sound hd

/-! ### Frames inside the global one -/

namespace Store

/-- Frames are nested inside the global one, and transparent ones have no slots. -/
structure Lexical (s : Store) : Prop where
  nested : s.Nested
  hollow : s.Hollow
  root : ∀ {id f}, s.frame? id = some f → f.parent = none → id = globalScope

variable {s : Store} {f : Frame}

theorem Lexical.set (h : s.Lexical) (id : FrameId) (i : Nat) (v : Datum) : (s.set id i v).Lexical where
  nested := h.nested.set id i v
  hollow := h.hollow.set h.nested id i v
  root {q g} hg hp := by
    obtain ⟨f, hf, rfl | ⟨-, rfl⟩⟩ := frame?_modify_cases hg
    · exact h.root hf hp
    · exact h.root hf hp

theorem Lexical.unset (h : s.Lexical) (id : FrameId) (i : Nat) : (s.unset id i).Lexical where
  nested := h.nested.unset id i
  hollow := h.hollow.unset id i
  root {q g} hg hp := by
    obtain ⟨f, hf, rfl | ⟨-, rfl⟩⟩ := frame?_modify_cases hg
    · exact h.root hf hp
    · exact h.root hf hp

/-- The frame of a call is put inside the one in which the function was made. -/
theorem Lexical.activation (h : s.Lexical) {c : Closure} (hc : c.scope < s.size) (slots : List Datum) :
    (s.add (Machine.activation c slots)).Lexical where
  nested := by
    refine h.nested.add ?_ fun hp => by cases hp
    intro parent hp
    cases hp
    exact hc
  hollow := by
    refine h.hollow.add ?_
    intro ht
    have hempty : slots = [] := List.isEmpty_iff.1 ht
    simp [Machine.activation, hempty]
  root {q g} hg hp := by
    rcases frame?_add_cases hg with ⟨-, rfl⟩ | hg
    · cases hp
    · exact h.root hg hp

theorem lexical_addRoot : empty.addRoot.Lexical := by
  have hbuilt : empty.addRoot.Built := .root .empty
  have honly : ∀ {id f}, empty.addRoot.frame? id = some f → id = globalScope ∧ f.slots = #[] := by
    intro id f hf
    rcases frame?_add_cases hf with ⟨hid, rfl⟩ | hold
    · exact ⟨hid, rfl⟩
    · cases hold
  exact ⟨hbuilt.nested, fun _ _ hf _ => (honly hf).2, fun hf _ => (honly hf).1⟩

theorem Lexical.writes {m : Machine} {op : Opcode} {s : State} {store : Store} (h : s.store.Lexical)
    (hst : Machine.Writes m op s store) : store.Lexical := by
  cases hst with
  | nothing => exact h
  | @assigned i v => exact h.set s.scope i v
  | @unloaded i => exact h.unset globalScope i

end Store

/-! ### Scoped states -/

namespace Machine

/-- The frames are nested inside the global one, and all that the state names is there. -/
structure Scoped (p : Program) (s : State) : Prop extends Housed (Datum.Proper p) s where
  lexical : s.store.Lexical

variable {m : Machine} {s t : State}

namespace Scoped

theorem names (h : Scoped m.program s) {id : FrameId} (hid : s.Names id) : id < s.store.size :=
  h.toHoused.names (Datum.lasting_proper _) hid

theorem lexical_entered {c : Invocation} {op : Opcode} (h : Scoped m.program s)
    (hc : m.prepare (announced op s) = .ok c t) :
    (t.store.add (activation c.callee c.slots)).Lexical := by
  have hannounced := h.toHoused.spent (spent_announced op s)
  obtain ⟨-, hcallee, -⟩ := hannounced.prepared (Datum.lasting_proper _) hc
  have hstore : t.store = s.store := ((prepare_ends .plain _).ok hc).store
  have hlexical : t.store.Lexical := hstore ▸ h.lexical
  exact hlexical.activation hcallee c.slots

theorem next (h : Scoped m.program s) (hfit : Fits m s)
    (hp : ∀ d ∈ m.program.toList, d.Sound m.program s.store.size) : Scoped m.program (m.next s) := by
  refine ⟨h.toHoused.next (Datum.lasting_proper _) hfit hp, ?_⟩
  rcases spent_or_done hfit with hspent | hdone
  · rw [hspent.store]
    exact h.lexical
  generalize m.next s = t at hdone
  cases hdone with
  | still _ => exact h.lexical
  | @instruction op t _ hst =>
    have hlexical : (announced op s).store.Lexical := h.lexical
    exact hlexical.writes hst.store
  | tailCalled _ hc _ | called _ hc _ _ =>
    have hlexical := h.lexical_entered hc
    exact hlexical
  | returned _ _ _ => exact h.lexical

end Scoped

theorem scoped_initial (p : Program) : Scoped p .initial where
  lexical := Store.lexical_addRoot
  scope := Nat.zero_lt_one
  saved _ hf := by cases hf
  stack _ hd := by cases hd
  slots {id i d} hd := by
    rcases Store.slot_add hd with hd | hd
    · cases hd
    · obtain ⟨f, hf, -⟩ := Store.slot_eq_ok.1 hd
      cases hf

theorem Reachable.scoped (hs : m.Reachable s) (hp : ∀ n, ∀ d ∈ m.program.toList, d.Sound m.program n) :
    Scoped m.program s := by
  have hfit : Fits m .initial := Nat.zero_le _
  exact hfit.invariant (fun t hfit ht => ht.next hfit (hp t.store.size)) (scoped_initial m.program) hs

/-- In every state of a program that was read from text, the frames around one that the state names end in
the global frame, and what the state holds names no frame other than as a function does. -/
theorem scopes_nested {capacity : Nat} {text : String} {p : Program} {limits : Limits}
    (hp : Program.ofListing capacity text = .ok p) (hs : (Machine.mk p limits).Reachable s) :
    (∀ id, s.Names id → s.store.Outward id (s.store.chain id) ∧
      (s.store.chain id).getLast? = some globalScope) ∧
    (∀ id f, s.store.frame? id = some f →
      (f.parent = none ↔ id = globalScope) ∧ (f.transparent = true → f.slots = #[])) ∧
    ∀ d, s.Holds d → (∀ id, d ≠ .scope id) ∧ ∀ i, d = .instruction i → .instruction i ∈ p.toList := by
  have h : Scoped (Machine.mk p limits).program s := hs.scoped fun n => Program.sound_of_ofListing hp n
  refine ⟨?_, ?_, ?_⟩
  · intro id hid
    have houtward := h.lexical.nested.outward_chain id (h.names hid)
    obtain ⟨q, f, hq, hf, hroot⟩ := houtward.exists_last
    rw [h.lexical.root hf hroot] at hq
    exact ⟨houtward, hq⟩
  · intro id f hf
    refine ⟨⟨h.lexical.root hf, ?_⟩, h.lexical.hollow hf⟩
    rintro rfl
    cases hparent : f.parent with
    | none => rfl
    | some parent => exact absurd (h.lexical.nested.older hf hparent) (Nat.not_lt_zero parent)
  · intro d hd
    have hproper := h.holds hd
    constructor
    · rintro id rfl
      exact hproper
    · rintro i rfl
      exact hproper

/-- The function at `2` takes any number of arguments and calls the one at `12`, which takes none and
makes a copy of itself. -/
def thunkInside : Program :=
  ((((((((((Builder.empty.opWith .jump 20).functionHeader 1 true).opWith .function 12).opWith
    (.call .plain) 0).op .ret).functionHeader 0 false).opWith .function 12).op .ret).opWith
    .function 2).opWith .function 12).opWith (.call .plain) 1 |>.op .halt |>.build

/-- In the body of the inner function the copy on the stack names the transparent frame `2`. -/
theorem scopes_nested_thunkInside :
    ∃ text s, thunkInside.toListing = .ok text ∧ Program.ofListing 27 text = .ok thunkInside ∧
      (Machine.mk thunkInside .standard).Reachable s ∧ s.Names 2 ∧
      s.Holds (.function ⟨12, globalScope⟩) ∧ s.store.chain 2 = [2, 1, globalScope] ∧
      s.store.Outward 2 [2, 1, globalScope] ∧
      ∀ f, s.store.frame? 2 = some f → f.transparent = true → f.slots = #[] := by
  obtain ⟨text, htext⟩ : ∃ text, thunkInside.toListing = .ok text := by
    have hok : thunkInside.toListing.isOk = true := by decide +kernel
    cases h : thunkInside.toListing with
    | ok text => exact ⟨text, rfl⟩
    | error e =>
      rw [h] at hok
      cases hok
  obtain ⟨ws, stop, hlisted, hrecords, hstop⟩ := Program.listed_toListing htext
  have hp : Program.ofListing 27 text = .ok thunkInside :=
    Program.ofListing_of_terminator hlisted hrecords (by decide) hstop
  have hs : (Machine.mk thunkInside .standard).Reachable
      ((Machine.mk thunkInside .standard).after 7 .initial) := ⟨7, rfl⟩
  have hstack : .function ⟨12, 2⟩ ∈ ((Machine.mk thunkInside .standard).after 7 .initial).stack.items := by
    decide +kernel
  have hslot : ((Machine.mk thunkInside .standard).after 7 .initial).store.slot 1 0 =
      .ok (.list [.function ⟨12, globalScope⟩]) := by decide +kernel
  have hchain : ((Machine.mk thunkInside .standard).after 7 .initial).store.chain 2 =
      [2, 1, globalScope] := by decide +kernel
  have hnames : ((Machine.mk thunkInside .standard).after 7 .initial).Names 2 :=
    .captured (f := ⟨12, 2⟩) (.stack hstack .self)
  obtain ⟨hscopes, hframes, -⟩ := scopes_nested hp hs
  have houtward := (hscopes 2 hnames).1
  rw [hchain] at houtward
  exact ⟨_, _, htext, hp, hs, hnames, .slot hslot (.item .self List.mem_cons_self), hchain, houtward,
    fun f hf => (hframes 2 f hf).2⟩

end Machine

end StackMachine
