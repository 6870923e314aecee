import Mathlib
import Arbor.Json.Plant
import Arbor.Proofs.Json.Values
import Arbor.Proofs.Tables

/-!
# Plants and their parts read back from JSON

A value is written in the form of its type and read back from that form.  What a form has to do is the
same for every type (`Keeps`): it has a text, and the value comes back from it unless one of the
numbers in single precision that the value holds is not finite, since such a number is written as
null.  The form of a record keeps its value because the forms of its fields keep theirs, one field
after another (`Keeps.bind`), and its fields are found because they have different names
(`fields?_record`).  Productions are read into a table again, which takes its entries in their order
(`SymbolMap.ofList_entries`).

That a finite number in single precision comes back from its own numeral is a matter of rounding and
not of form.  It is assumed of the numbers that occur (`Recovered`) and can be decided for each.
-/

namespace Arbor

open JsonForm

/-! ## Records -/

lemma mapM_eq_some_map {α β : Type} {f : α → Option β} {g : α → β} {l : List α}
    (h : ∀ a ∈ l, f a = some (g a)) : l.mapM f = some (l.map g) := by
  induction l with
  | nil => rfl
  | cons a l ih =>
      rw [List.mapM_cons, h a List.mem_cons_self, ih fun b hb => h b (List.mem_cons_of_mem _ hb)]
      rfl

lemma ofWord_injective {v w : Word} (h : Text.ofWord v = Text.ofWord w) : v = w := by
  have hwords := congrArg Text.word? h
  rwa [Text.word?_ofWord, Text.word?_ofWord, Option.some_inj] at hwords

/-- Among fields of different names there is one of each name. -/
lemma filter_name {fields : List (String × Json)} (hnames : (fields.map Prod.fst).Nodup)
    {f : String × Json} (hf : f ∈ fields) : fields.filter (fun g => g.1 = f.1) = [f] := by
  induction fields with
  | nil => cases hf
  | cons g rest ih =>
      obtain ⟨hother, hrest⟩ := List.nodup_cons.1 hnames
      rcases List.mem_cons.1 hf with rfl | hf
      · have hnone : rest.filter (fun g => g.1 = f.1) = [] := by
          refine List.filter_eq_nil_iff.2 fun g hg hname => hother ?_
          rw [← of_decide_eq_true hname]
          exact List.mem_map_of_mem hg
        rw [List.filter_cons_of_pos (by simp), hnone]
      · have hne : g.1 ≠ f.1 := fun hname => hother (hname ▸ List.mem_map_of_mem hf)
        rw [List.filter_cons_of_neg (by simp [hne]), ih hrest hf]

lemma member?_record {fields : List (String × Json)} (hnames : (fields.map Prod.fst).Nodup)
    {f : String × Json} (hf : f ∈ fields) :
    Json.member? (fields.map fun f => (Text.ofWord f.1.toList, f.2)) f.1 = some f.2 := by
  have hsame (g : String × Json) :
      (Text.ofWord g.1.toList == Text.ofWord f.1.toList) = decide (g.1 = f.1) := by
    rw [Bool.eq_iff_iff, beq_iff_eq, decide_eq_true_eq]
    exact ⟨fun h => String.toList_inj.1 (ofWord_injective h), fun h => by rw [h]⟩
  rw [Json.member?, List.filter_map]
  simp only [Function.comp_def, hsame, filter_name hnames hf, List.map_cons, List.map_nil]

/-- The fields of a record are found under their names. -/
lemma fields?_record {names : List String} (hnames : names.Nodup) {fields : List (String × Json)}
    (hfields : fields.map Prod.fst = names) :
    (Json.record fields).fields? names = some (fields.map Prod.snd) := by
  subst hfields
  have hwords : (fields.map fun f => (Text.ofWord f.1.toList, f.2)).all
      (fun m => m.1.word?.isSome) := by
    simp
  rw [Json.record, Json.fields?, if_pos hwords, List.mapM_map]
  exact mapM_eq_some_map fun f hf => member?_record hnames hf

lemma fields?_bind {α : Type} (names : List String) (hnames : names.Nodup)
    {fields : List (String × Json)} (hfields : fields.map Prod.fst = names)
    (k : List Json → Option α) :
    ((Json.record fields).fields? names).bind k = k (fields.map Prod.snd) := by
  rw [fields?_record hnames hfields, Option.bind_some]

lemma onlyFields?_record {names : List String} (hnames : names.Nodup)
    {fields : List (String × Json)} (hfields : fields.map Prod.fst = names) :
    (Json.record fields).onlyFields? names = some (fields.map Prod.snd) := by
  have hlength : (fields.map fun f => (Text.ofWord f.1.toList, f.2)).length = names.length := by
    rw [← hfields, List.length_map, List.length_map]
  rw [← fields?_record hnames hfields, Json.record, Json.onlyFields?, if_pos hlength]

lemma spelled_record {fields : List (String × Json)} (hfields : ∀ f ∈ fields, f.2.Spelled) :
    (Json.record fields).Spelled := by
  refine .object (fun m hm => ?_) fun m hm => ?_
  · obtain ⟨f, -, rfl⟩ := List.mem_map.1 hm
    exact ⟨_, rfl⟩
  · obtain ⟨f, hf, rfl⟩ := List.mem_map.1 hm
    exact hfields f hf

/-! ## Forms that keep their values -/

/-- A number in single precision is read back from its numeral. -/
def Numeral.Recovers (f : Float32) : Prop := (ofSingle? f).bind single? = some f
deriving Decidable

/-- The finite ones of some numbers are read back from their numerals. -/
def Recovered (fs : List Float32) : Prop := ∀ f ∈ fs, f.isFinite → Numeral.Recovers f
deriving Decidable

/-- A value, if all of some numbers are finite. -/
def whenFinite {α : Type} (fs : List Float32) (a : α) : Option α :=
  if fs.all Float32.isFinite then some a else none

/-- The form of a value that holds some numbers in single precision: it has a text, and what is read
from it is the value, as long as the numbers are finite. -/
structure Keeps {α : Type} [JsonForm α] (a : α) (fs : List Float32) : Prop where
  spelled : (toJson a).Spelled
  read : Recovered fs → ofJson? (toJson a) = whenFinite fs a

section

variable {α β : Type} {fs gs : List Float32}

lemma recovered_append : Recovered (fs ++ gs) ↔ Recovered fs ∧ Recovered gs :=
  List.forall_mem_append

lemma recovered_cons {f : Float32} :
    Recovered (f :: fs) ↔ (f.isFinite → Numeral.Recovers f) ∧ Recovered fs :=
  List.forall_mem_cons

lemma recovered_nil : Recovered [] := fun _ hf => by cases hf

lemma whenFinite_nil (a : α) : whenFinite [] a = some a := rfl

lemma whenFinite_cons (f : Float32) (a : α) :
    whenFinite (f :: fs) a = if f.isFinite then whenFinite fs a else none := by
  simp only [whenFinite, List.all_cons, Bool.and_eq_true, ite_and]

lemma whenFinite_append (a : α) :
    whenFinite (fs ++ gs) a = if fs.all Float32.isFinite then whenFinite gs a else none := by
  simp only [whenFinite, List.all_append, Bool.and_eq_true, ite_and]

lemma Keeps.bind [JsonForm α] {a : α} (ha : Keeps a fs) (hrecovered : Recovered fs)
    (k : α → Option β) :
    (ofJson? (toJson a)).bind k = if fs.all Float32.isFinite then k a else none := by
  rw [ha.read hrecovered, whenFinite]
  split <;> rfl

end

/-! ## Basic types -/

lemma count?_ofNat {n bound : ℕ} (hn : n < bound) : (Numeral.ofNat n).count? bound = some n := by
  simp [Numeral.count?, Numeral.isInteger, Numeral.ofNat, hn]

lemma keeps_count (n : UInt64) : Keeps n [] where
  spelled := .number (spelled_ofNat n.toNat)
  read _ := by
    have hread : (ofJson? (toJson n) : Option UInt64) =
        ((Numeral.ofNat n.toNat).count? UInt64.size).map UInt64.ofNat := rfl
    rw [hread, count?_ofNat n.toNat_lt, Option.map_some, UInt64.ofNat_toNat, whenFinite_nil]

lemma keeps_measure (f : Float32) : Keeps f [f] := by
  have hform : toJson f = ((Numeral.ofSingle? f).map Json.number).getD .null := rfl
  have hfinite := Numeral.ofSingle?_eq_none_iff (f := f)
  cases hn : Numeral.ofSingle? f with
  | none =>
      rw [hn, Option.map_none, Option.getD_none] at hform
      refine ⟨hform ▸ .null, fun _ => ?_⟩
      have hnot : f.isFinite = false := by simpa using hfinite.1 hn
      rw [hform, whenFinite, List.all_cons, hnot]
      rfl
  | some n =>
      rw [hn, Option.map_some, Option.getD_some] at hform
      refine ⟨hform ▸ .number (Numeral.spelled_ofSingle? hn), fun hrecovered => ?_⟩
      have hf : f.isFinite := by
        by_contra hnot
        rw [hfinite.2 hnot] at hn
        cases hn
      have hread : n.single? = some f := by
        have hrecovers := hrecovered f List.mem_cons_self hf
        rwa [Numeral.Recovers, hn] at hrecovers
      rw [hform, whenFinite, List.all_cons, hf]
      exact hread

lemma measure_bind {α : Type} {f : Float32} (hf : f.isFinite → Numeral.Recovers f)
    (k : Float32 → Option α) : (ofJson? (toJson f)).bind k = if f.isFinite then k f else none := by
  have hbind := (keeps_measure f).bind (recovered_cons.2 ⟨hf, recovered_nil⟩) k
  rwa [List.all_cons, List.all_nil, Bool.and_true] at hbind

lemma keeps_word (w : Word) : Keeps w [] where
  spelled := .string w
  read _ := Text.word?_ofWord w

lemma keeps_symbol (c : Symbol) : Keeps c [] where
  spelled := .string [c]
  read _ := rfl

/-! ## Geometry

The measures of a value are the numbers in single precision that it holds, in the order of its
fields.
-/

def Vec3.measures (v : Vec3) : List Float32 := [v.x, v.y, v.z]

def Quat.measures (q : Quat) : List Float32 := [q.x, q.y, q.z, q.w]

def Pose.measures (p : Pose) : List Float32 := p.position.measures ++ p.rotation.measures

def Branch.measures (b : Branch) : List Float32 := b.start.measures ++ b.stop.measures

def Sphere.measures (s : Sphere) : List Float32 := s.center.measures ++ [s.radius]

lemma keeps_vec3 (v : Vec3) : Keeps v v.measures where
  spelled := .array (by simp [(keeps_measure _).spelled])
  read h := by
    have hread : ofJson? (toJson v) = (ofJson? (toJson v.x)).bind fun x =>
        (ofJson? (toJson v.y)).bind fun y => (ofJson? (toJson v.z)).bind fun z =>
          some (⟨x, y, z⟩ : Vec3) := rfl
    simp only [Vec3.measures, recovered_cons] at h ⊢
    obtain ⟨hx, hy, hz, -⟩ := h
    simp only [hread, measure_bind hx, measure_bind hy, measure_bind hz, whenFinite_cons,
      whenFinite_nil]

lemma keeps_quat (q : Quat) : Keeps q q.measures where
  spelled := .array (by simp [(keeps_measure _).spelled])
  read h := by
    have hread : ofJson? (toJson q) = (ofJson? (toJson q.x)).bind fun x =>
        (ofJson? (toJson q.y)).bind fun y => (ofJson? (toJson q.z)).bind fun z =>
          (ofJson? (toJson q.w)).bind fun w => some (⟨x, y, z, w⟩ : Quat) := rfl
    simp only [Quat.measures, recovered_cons] at h ⊢
    obtain ⟨hx, hy, hz, hw, -⟩ := h
    simp only [hread, measure_bind hx, measure_bind hy, measure_bind hz, measure_bind hw,
      whenFinite_cons, whenFinite_nil]

lemma keeps_pose (p : Pose) : Keeps p p.measures where
  spelled := spelled_record (by simp [(keeps_vec3 _).spelled, (keeps_quat _).spelled])
  read h := by
    have hread : ofJson? (toJson p) = (ofJson? (toJson p.position)).bind fun position =>
        (ofJson? (toJson p.rotation)).bind fun rotation => some (⟨position, rotation⟩ : Pose) :=
      fields?_bind ["position", "rotation"] (by decide) rfl _
    obtain ⟨hposition, hrotation⟩ := recovered_append.1 h
    rw [hread, (keeps_vec3 _).bind hposition, (keeps_quat _).bind hrotation, Pose.measures,
      whenFinite_append]
    rfl

lemma keeps_branch (b : Branch) : Keeps b b.measures where
  spelled := spelled_record (by simp [(keeps_vec3 _).spelled])
  read h := by
    have hread : ofJson? (toJson b) = (ofJson? (toJson b.start)).bind fun start =>
        (ofJson? (toJson b.stop)).bind fun stop => some (⟨start, stop⟩ : Branch) :=
      fields?_bind ["start", "end"] (by decide) rfl _
    obtain ⟨hstart, hstop⟩ := recovered_append.1 h
    rw [hread, (keeps_vec3 _).bind hstart, (keeps_vec3 _).bind hstop, Branch.measures,
      whenFinite_append]
    rfl

lemma keeps_sphere (s : Sphere) : Keeps s s.measures where
  spelled := spelled_record (by simp [(keeps_vec3 _).spelled, (keeps_measure _).spelled])
  read h := by
    have hread : ofJson? (toJson s) = (ofJson? (toJson s.center)).bind fun center =>
        (ofJson? (toJson s.radius)).bind fun radius => some (⟨center, radius⟩ : Sphere) :=
      fields?_bind ["center", "radius"] (by decide) rfl _
    obtain ⟨hcenter, hradius⟩ := recovered_append.1 h
    rw [hread, (keeps_vec3 _).bind hcenter, (keeps_measure _).bind hradius, Sphere.measures,
      whenFinite_append]
    rfl

/-! ## The turtle -/

def Op.measures : Op → List Float32
  | .turn sign => [sign]
  | _ => []

def Settings.measures (s : Settings) : List Float32 := [s.stepLength, s.turnAngle, s.strength]

lemma keeps_op (op : Op) : Keeps op op.measures := by
  cases op with
  | draw => exact ⟨.string _, fun _ => rfl⟩
  | push => exact ⟨.string _, fun _ => rfl⟩
  | pop => exact ⟨.string _, fun _ => rfl⟩
  | ignore => exact ⟨.string _, fun _ => rfl⟩
  | turn sign =>
      refine ⟨spelled_record (by simp [(keeps_measure _).spelled]), fun h => ?_⟩
      have hread : ofJson? (toJson (Op.turn sign)) =
          (ofJson? (toJson sign)).bind fun sign => some (Op.turn sign) := by
        change (Text.word? (Text.ofWord "Turn".toList)).bind _ = _
        rw [Text.word?_ofWord, Option.bind_some, if_pos rfl]
        rfl
      rw [hread, (keeps_measure sign).bind h]
      rfl

lemma keeps_settings (s : Settings) : Keeps s s.measures where
  spelled := spelled_record (by simp [(keeps_measure _).spelled, (keeps_count _).spelled])
  read h := by
    have hread : ofJson? (toJson s) = (ofJson? (toJson s.stepLength)).bind fun step =>
        (ofJson? (toJson s.turnAngle)).bind fun turn =>
        (ofJson? (toJson s.strength)).bind fun strength =>
        (ofJson? (toJson s.maxDepth)).bind fun depth =>
          some (⟨step, turn, strength, depth⟩ : Settings) :=
      fields?_bind ["step_length", "turn_angle", "adaptation_strength", "max_stack_depth"]
        (by decide) rfl _
    simp only [Settings.measures, recovered_cons] at h ⊢
    obtain ⟨hstep, hturn, hstrength, -⟩ := h
    simp only [hread, measure_bind hstep, measure_bind hturn, measure_bind hstrength,
      (keeps_count _).bind recovered_nil, whenFinite_cons, whenFinite_nil, List.all_nil, if_true]

/-! ## Productions and plants -/

def Plant.measures (p : Plant) : List Float32 := p.settings.measures ++ p.pose.measures

lemma ofMember?_rule (c : Symbol) (w : Word) :
    Productions.ofMember? (Text.ofWord [c], toJson w) = some (c, w) := by
  have hread := (keeps_word w).bind recovered_nil fun w => some (c, w)
  rwa [List.all_nil, if_pos rfl] at hread

lemma keeps_productions (p : Productions) : Keeps p [] where
  spelled := by
    refine spelled_record fun f hf => ?_
    obtain rfl := List.mem_singleton.1 hf
    refine .object (fun m hm => ?_) fun m hm => ?_
    · obtain ⟨rule, -, rfl⟩ := List.mem_map.1 hm
      exact ⟨[rule.1], rfl⟩
    · obtain ⟨rule, -, rfl⟩ := List.mem_map.1 hm
      exact .string rule.2
  read _ := by
    have hread : ofJson? (toJson p) =
        ((p.toList.map fun rule => (Text.ofWord [rule.1], toJson rule.2)).mapM
          Productions.ofMember?).bind fun rules => some (Productions.ofList rules) :=
      fields?_bind ["rules"] (by decide) rfl _
    have hrules : (p.toList.map fun rule => (Text.ofWord [rule.1], toJson rule.2)).mapM
        Productions.ofMember? = some (p.toList.map id) := by
      rw [List.mapM_map]
      exact mapM_eq_some_map fun rule _ => ofMember?_rule rule.1 rule.2
    rw [hread, hrules, List.map_id, Option.bind_some, Productions.ofList, Productions.toList,
      SymbolMap.ofList_entries, whenFinite_nil]

lemma keeps_duration (d : Duration) : Keeps d [] where
  spelled := by
    refine spelled_record fun f hf => ?_
    simp only [List.mem_cons, List.not_mem_nil, or_false] at hf
    obtain rfl | rfl := hf
    · exact .number (spelled_ofNat _)
    · exact .number (spelled_ofNat _)
  read _ := by
    have hnames : ["secs", "nanos"].Nodup := by decide
    have hform : toJson d =
        .record [("secs", toJson d.seconds), ("nanos", toJson d.nanos.val)] := rfl
    have hsecs : (ofJson? (toJson d.seconds) : Option ℕ) = some d.seconds.toNat :=
      count?_ofNat d.seconds.toNat_lt
    have hnanos : (Numeral.ofNat d.nanos.val).count? UInt32.size = some d.nanos.val :=
      count?_ofNat (d.nanos.isLt.trans (by decide))
    have hcarry : d.nanos.val / 1000000000 = 0 := Nat.div_eq_of_lt d.nanos.isLt
    change ((toJson d).onlyFields? ["secs", "nanos"]).bind _ = _
    rw [hform, onlyFields?_record hnames rfl, Option.bind_some]
    change (ofJson? (toJson d.seconds) : Option ℕ).bind _ = _
    simp only [Option.bind_eq_bind, hsecs, hnanos, Option.bind_some, hcarry, Nat.add_zero,
      if_pos d.seconds.toNat_lt, UInt64.ofNat_toNat, Nat.mod_eq_of_lt d.nanos.isLt]
    rfl

lemma keeps_plant (p : Plant) : Keeps p p.measures where
  spelled := spelled_record (by simp [(keeps_symbol _).spelled, (keeps_productions _).spelled,
    (keeps_count _).spelled, (keeps_settings _).spelled, (keeps_pose _).spelled,
    (keeps_duration _).spelled])
  read h := by
    have hread : ofJson? (toJson p) = (ofJson? (toJson p.start)).bind fun start =>
        (ofJson? (toJson p.productions)).bind fun productions =>
        (ofJson? (toJson p.rounds)).bind fun rounds =>
        (ofJson? (toJson p.settings)).bind fun settings =>
        (ofJson? (toJson p.pose)).bind fun pose =>
        (ofJson? (toJson p.delay)).bind fun delay =>
        (ofJson? (toJson p.maxSymbols)).bind fun maxSymbols =>
          some (⟨start, productions, rounds, settings, pose, delay, maxSymbols⟩ : Plant) :=
      fields?_bind ["axiom", "rules", "iterations", "turtle", "initial_pose", "step_delay",
        "max_symbols"] (by decide) rfl _
    obtain ⟨hsettings, hpose⟩ := recovered_append.1 h
    simp only [hread, (keeps_symbol _).bind recovered_nil, (keeps_productions _).bind recovered_nil,
      (keeps_count _).bind recovered_nil, (keeps_settings _).bind hsettings,
      (keeps_pose _).bind hpose, (keeps_duration _).bind recovered_nil, List.all_nil, if_true,
      Plant.measures, whenFinite_append]
    rfl

/-! ## Texts -/

/-- The text of a value that holds some numbers in single precision can be read when the numbers are
finite, and then it is read as that value. -/
def RoundTrips {α : Type} [JsonForm α] (a : α) (fs : List Float32) : Prop :=
  ((read? (write a) : Option α).isSome ↔ ∀ f ∈ fs, f.isFinite) ∧
  ((∀ f ∈ fs, f.isFinite) → read? (write a) = some a)

lemma Keeps.roundTrips {α : Type} [JsonForm α] {a : α} {fs : List Float32} (ha : Keeps a fs)
    (hrecovered : Recovered fs) : RoundTrips a fs := by
  have hread : read? (write a) = whenFinite fs a := by
    rw [read?, write, String.toList_ofList, parse?_print ha.spelled]
    exact ha.read hrecovered
  have hall : fs.all Float32.isFinite ↔ ∀ f ∈ fs, f.isFinite := List.all_eq_true
  rw [RoundTrips, hread, whenFinite, ← hall]
  split
  · exact ⟨iff_of_true rfl ‹_›, fun _ => rfl⟩
  · exact ⟨iff_of_false Bool.false_ne_true ‹_›, fun h => absurd h ‹_›⟩

/-- **Plants and their parts are read back from their texts.**  Provided that the finite numbers in
single precision that occur are read back from their numerals, the text of a plant can be read just
when all these numbers are finite, and what is read is the plant, down to the signs of zeros.  Its
symbols, words, counts and delay never stand in the way, and in particular productions are always
read back.  The same holds of settings, poses, operations, branches and balls on their own. -/
theorem read_write_iff_finite :
    (∀ p : Plant, Recovered p.measures → RoundTrips p p.measures) ∧
    (∀ p : Productions, read? (write p) = some p) ∧
    (∀ s : Settings, Recovered s.measures → RoundTrips s s.measures) ∧
    (∀ p : Pose, Recovered p.measures → RoundTrips p p.measures) ∧
    (∀ op : Op, Recovered op.measures → RoundTrips op op.measures) ∧
    (∀ b : Branch, Recovered b.measures → RoundTrips b b.measures) ∧
    ∀ s : Sphere, Recovered s.measures → RoundTrips s s.measures := by
  refine ⟨fun p => (keeps_plant p).roundTrips, fun p => ?_, fun s => (keeps_settings s).roundTrips,
    fun p => (keeps_pose p).roundTrips, fun op => (keeps_op op).roundTrips,
    fun b => (keeps_branch b).roundTrips, fun s => (keeps_sphere s).roundTrips⟩
  exact ((keeps_productions p).roundTrips recovered_nil).2 fun _ hf => by cases hf

/-- A plant of quotes, backslashes, control characters and symbols beyond the basic ones, with counts
and a delay as large as can be, tiny and huge numbers, and zeros of both signs. -/
def bramble : Plant where
  start := '\"'
  productions := .ofList [('\"', ['\\', '\"', '/', '\x01', '\x7f', '\n', '😀']), ('\\', []),
    ('\x1f', ['F'])]
  rounds := 18446744073709551615
  settings := ⟨0.1, 22.5, -0.0, 18446744073709551615⟩
  pose := ⟨⟨1e-44, -0.0, 3.4e38⟩, ⟨0.6, 0, -0.8, 1e-7⟩⟩
  delay := ⟨18446744073709551615, ⟨999999999, by decide⟩⟩
  maxSymbols := 0

/-- A plant that bends without bound. -/
def whorl : Plant := { bramble with settings.strength := Float32.ofBits 0x7f800000 }

/-- The bramble is read back with all its parts, and the one infinite number of the whorl is enough for
it to be lost. -/
theorem read_write_bramble_whorl :
    (Recovered bramble.measures ∧ read? (write bramble) = some bramble) ∧
    (Recovered whorl.measures ∧ (read? (write whorl) : Option Plant) = none) ∧
    (Recovered bramble.settings.measures ∧
      read? (write bramble.settings) = some bramble.settings) ∧
    (Recovered bramble.pose.measures ∧ read? (write bramble.pose) = some bramble.pose) ∧
    (Recovered (Op.turn (-0.0)).measures ∧
      read? (write (Op.turn (-0.0))) = some (Op.turn (-0.0))) ∧
    (Recovered (Branch.mk ⟨0, 0, 0⟩ ⟨0, 0.1, 0⟩).measures ∧
      read? (write (Branch.mk ⟨0, 0, 0⟩ ⟨0, 0.1, 0⟩)) = some (Branch.mk ⟨0, 0, 0⟩ ⟨0, 0.1, 0⟩)) ∧
    Recovered (Sphere.mk ⟨0, 0, 0⟩ 2.5).measures ∧
      read? (write (Sphere.mk ⟨0, 0, 0⟩ 2.5)) = some (Sphere.mk ⟨0, 0, 0⟩ 2.5) := by
  obtain ⟨hplant, -, hsettings, hpose, hop, hbranch, hsphere⟩ := read_write_iff_finite
  have hbramble : Recovered bramble.measures := by decide +kernel
  have hwhorl : Recovered whorl.measures := by decide +kernel
  have hunread : ¬ ∀ f ∈ whorl.measures, f.isFinite := by decide +kernel
  have hset : Recovered bramble.settings.measures := by decide +kernel
  have hplace : Recovered bramble.pose.measures := by decide +kernel
  have hturn : Recovered (Op.turn (-0.0)).measures := by decide +kernel
  have hline : Recovered (Branch.mk ⟨0, 0, 0⟩ ⟨0, 0.1, 0⟩).measures := by decide +kernel
  have hball : Recovered (Sphere.mk ⟨0, 0, 0⟩ 2.5).measures := by decide +kernel
  refine ⟨⟨hbramble, (hplant _ hbramble).2 (by decide +kernel)⟩, ⟨hwhorl, ?_⟩,
    ⟨hset, (hsettings _ hset).2 (by decide +kernel)⟩,
    ⟨hplace, (hpose _ hplace).2 (by decide +kernel)⟩,
    ⟨hturn, (hop _ hturn).2 (by decide +kernel)⟩,
    ⟨hline, (hbranch _ hline).2 (by decide +kernel)⟩,
    hball, (hsphere _ hball).2 (by decide +kernel)⟩
  exact Option.not_isSome_iff_eq_none.1 fun hsome => hunread ((hplant _ hwhorl).1.1 hsome)

end Arbor
