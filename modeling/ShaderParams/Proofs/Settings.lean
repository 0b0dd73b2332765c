import ShaderParams.Proofs.Logged
import ShaderParams.Slider.Field

/-!
This module contains what the settings of a field mean: which one counts if several have the same
name, which one a failure is due to, and which ones are remarked on.
-/

namespace ShaderParams

/-!
Settings that replace each other.
-/

section

variable {α : Type} (gives : LayoutEntry → Option (Except Error α))

/-- Whether no setting fails to give what it is asked for. -/
def AllGiven (S : List LayoutEntry) : Prop :=
  ∀ e ∈ S, ∀ r ∈ gives e, r.isOk

instance (S : List LayoutEntry) : Decidable (AllGiven gives S) :=
  inferInstanceAs (Decidable (∀ e ∈ S, ∀ r ∈ gives e, r.isOk))

/-- Whether `x` is what the last setting gives that gives anything, or else the default. -/
def LastGiven (default : α) (S : List LayoutEntry) (x : α) : Prop :=
  match (S.filterMap gives).getLast? with
  | none => x = default
  | some r => r = .ok x

/-- Whether `before` are the settings in front of the first one that fails, with `err`. -/
def FirstFailing (S before : List LayoutEntry) (err : Error) : Prop :=
  AllGiven gives before ∧ ∃ e behind, S = before ++ e :: behind ∧ gives e = some (.error err)

variable {gives}

theorem LastGiven.append {S S' : List LayoutEntry} {x y z : α} (h : LastGiven gives x S y)
    (h' : LastGiven gives y S' z) : LastGiven gives x (S ++ S') z := by
  rw [LastGiven] at h' ⊢
  rw [List.filterMap_append, List.getLast?_append]
  split at h'
  · next hlast =>
    rw [hlast, h']
    exact h
  · next r hlast =>
    rw [hlast]
    exact h'

theorem lastGiven_of_none {e : LayoutEntry} (h : gives e = none) (x : α) :
    LastGiven gives x [e] x := by
  rw [LastGiven, List.filterMap_cons_none h]
  rfl

theorem lastGiven_of_ok {e : LayoutEntry} {y : α} (h : gives e = some (.ok y)) (x : α) :
    LastGiven gives x [e] y := by
  rw [LastGiven, List.filterMap_cons_some h]
  rfl

theorem exists_firstFailing {S : List LayoutEntry} (h : ¬AllGiven gives S) :
    ∃ before err, FirstFailing gives S before err := by
  induction S with
  | nil =>
    refine absurd ?_ h
    rintro e ⟨⟩
  | cons e S ih =>
    by_cases he : ∀ r ∈ gives e, r.isOk
    · have htail : ¬AllGiven gives S := fun htail => h (List.forall_mem_cons.mpr ⟨he, htail⟩)
      obtain ⟨before, err, hbefore, d, behind, rfl, hd⟩ := ih htail
      exact ⟨e :: before, err, List.forall_mem_cons.mpr ⟨he, hbefore⟩, d, behind, rfl, hd⟩
    · simp only [not_forall] at he
      obtain ⟨r, hr, hfails⟩ := he
      cases r with
      | ok x => exact absurd rfl hfails
      | error err =>
        refine ⟨[], err, ?_, e, S, rfl, hr⟩
        rintro d ⟨⟩

end

/--
What a run through settings changes and remarks on, from what each one of them does.
-/
theorem exists_run {σ : Type} {apply : σ → List LayoutEntry → Logged σ}
    {updates : List LayoutEntry → σ → σ → Prop} {remark? : LayoutEntry → Option Warning}
    (hnil : ∀ s, updates [] s s)
    (happend : ∀ {S S' s t u}, updates S s t → updates S' t u → updates (S ++ S') s u)
    {S : List LayoutEntry}
    (hstep : ∀ e ∈ S, ∀ s, ∃ t, updates [e] s t ∧
      ∀ es, apply s (e :: es) = .after (remark? e).toList (apply t es)) (s : σ) :
    ∃ t, updates S s t ∧ ∀ es, apply s (S ++ es) = .after (S.filterMap remark?) (apply t es) := by
  induction S generalizing s with
  | nil => exact ⟨s, hnil s, fun es => rfl⟩
  | cons e S ih =>
    obtain ⟨hstep, hrest⟩ := List.forall_mem_cons.mp hstep
    obtain ⟨t, ht, happly⟩ := hstep s
    obtain ⟨u, hu, happly'⟩ := ih hrest t
    refine ⟨u, happend ht hu, fun es => ?_⟩
    rw [List.cons_append, happly, happly', Logged.after, Logged.after, Logged.after]
    cases hremark : remark? e <;> simp [hremark]

/-!
Settings of numeric sliders.
-/

def numericNames : List String := ["min", "max", "init"]

namespace LayoutEntry

def number (field : String) (e : LayoutEntry) : Except Error Number :=
  match e.value with
  | none => .error (.rejected (.valuelessSetting e.name field) e.node.label.start)
  | some v => v.constant .f32

def number? (names : List String) (field : String) (e : LayoutEntry) :
    Option (Except Error Number) :=
  if e.name ∈ names then some (e.number field) else none

def floatRemark? (field : String) (e : LayoutEntry) : Option Warning :=
  if e.name ∈ numericNames then none else some (.unknownFloatSetting e.name field)

end LayoutEntry

namespace FloatSettings

open LayoutEntry

/-- Whether settings change the numbers from those of `s` to those of `t`. -/
structure Updates (field : String) (S : List LayoutEntry) (s t : FloatSettings) : Prop where
  min : LastGiven (number? ["min"] field) (.float s.min) S (.float t.min)
  max : LastGiven (number? ["max"] field) (.float s.max) S (.float t.max)
  init : LastGiven (number? ["init"] field) (.float s.init) S (.float t.init)

variable {field : String} {e : LayoutEntry}

theorem Updates.append {S S' : List LayoutEntry} {s t u : FloatSettings} (h : Updates field S s t)
    (h' : Updates field S' t u) : Updates field (S ++ S') s u :=
  ⟨h.min.append h'.min, h.max.append h'.max, h.init.append h'.init⟩

theorem set?_eq_none (h : e.name ∉ numericNames) (s : FloatSettings) : s.set? e.name = none := by
  simp only [numericNames, List.mem_cons, List.not_mem_nil, or_false, not_or] at h
  rw [set?, if_neg h.1, if_neg h.2.1, if_neg h.2.2]

theorem exists_set? (field : String) (h : e.name ∈ numericNames) (s : FloatSettings) :
    ∃ set, s.set? e.name = some set ∧
      ∀ x, e.number field = .ok (.float x) → Updates field [e] s (set x) := by
  have hother {names : List String} (hnames : e.name ∉ names) (x : Number) :
      LastGiven (number? names field) x [e] x :=
    lastGiven_of_none (if_neg hnames) x
  have hown {names : List String} (hnames : e.name ∈ names) {y : Number}
      (hy : e.number field = .ok y) (x : Number) : LastGiven (number? names field) x [e] y :=
    lastGiven_of_ok ((if_pos hnames).trans (congrArg some hy)) x
  simp only [numericNames, List.mem_cons, List.not_mem_nil, or_false] at h
  rcases h with hname | hname | hname <;> rw [hname]
  · exact ⟨_, rfl, fun x hx => ⟨hown (by simp [hname]) hx _, hother (by simp [hname]) _,
      hother (by simp [hname]) _⟩⟩
  · exact ⟨_, rfl, fun x hx => ⟨hother (by simp [hname]) _, hown (by simp [hname]) hx _,
      hother (by simp [hname]) _⟩⟩
  · exact ⟨_, rfl, fun x hx => ⟨hother (by simp [hname]) _, hother (by simp [hname]) _,
      hown (by simp [hname]) hx _⟩⟩

section

variable {s : FloatSettings} {set : Double → FloatSettings}

theorem apply_of_number_ok (h : s.set? e.name = some set) {v : Number}
    (hv : e.number field = .ok v) :
    ∃ x, v = .float x ∧ ∀ es, apply field s (e :: es) = apply field (set x) es := by
  simp only [apply, h]
  rw [number] at hv
  cases hvalue : e.value with
  | none =>
    rw [hvalue] at hv
    cases hv
  | some value =>
    rw [hvalue] at hv
    dsimp only at hv ⊢
    rw [Node.constant_f32] at hv
    cases hx : value.single with
    | error err =>
      rw [hx] at hv
      cases hv
    | ok x =>
      rw [hx] at hv
      cases hv
      exact ⟨x, rfl, fun es => Logged.lift_ok_bind ..⟩

theorem apply_of_number_error (h : s.set? e.name = some set) {err : Error}
    (herr : e.number field = .error err) (es : List LayoutEntry) :
    apply field s (e :: es) = ⟨[], .error err⟩ := by
  rw [apply, h]
  rw [number] at herr
  cases hvalue : e.value with
  | none =>
    rw [hvalue] at herr
    cases herr
    rfl
  | some value =>
    rw [hvalue] at herr
    dsimp only at herr ⊢
    rw [Node.constant_f32] at herr
    cases hx : value.single with
    | error err' =>
      rw [hx] at herr
      cases herr
      rfl
    | ok x =>
      rw [hx] at herr
      cases herr

end

theorem apply_of_error {err : Error} (h : e.number? numericNames field = some (.error err))
    (s : FloatSettings) (es : List LayoutEntry) : apply field s (e :: es) = ⟨[], .error err⟩ := by
  rw [number?] at h
  split at h
  · next hname =>
    obtain ⟨set, hset, -⟩ := exists_set? field hname s
    exact apply_of_number_error hset (Option.some.inj h) es
  · cases h

theorem apply_cons (h : ∀ r ∈ e.number? numericNames field, r.isOk) (s : FloatSettings) :
    ∃ t, Updates field [e] s t ∧
      ∀ es, apply field s (e :: es) = .after (e.floatRemark? field).toList (apply field t es) := by
  by_cases hname : e.name ∈ numericNames
  · obtain ⟨set, hset, hupdates⟩ := exists_set? field hname s
    cases hnumber : e.number field with
    | error err => cases h (.error err) (by rw [Option.mem_def, number?, if_pos hname, hnumber])
    | ok v =>
      obtain ⟨x, rfl, happly⟩ := apply_of_number_ok hset hnumber
      refine ⟨set x, hupdates x hnumber, fun es => ?_⟩
      rw [happly, floatRemark?, if_pos hname]
      rfl
  · have hskip {names : List String} (hnames : names ⊆ numericNames) (x : Number) :
        LastGiven (number? names field) x [e] x :=
      lastGiven_of_none (if_neg fun hmem => hname (hnames hmem)) x
    refine ⟨s, ⟨hskip (by decide) _, hskip (by decide) _, hskip (by decide) _⟩, fun es => ?_⟩
    rw [apply, set?_eq_none hname, floatRemark?, if_neg hname]
    rfl

theorem apply_of_allGiven {S : List LayoutEntry} (h : AllGiven (number? numericNames field) S)
    (s : FloatSettings) :
    ∃ t, Updates field S s t ∧
      ∀ es, apply field s (S ++ es) =
        .after (S.filterMap (floatRemark? field)) (apply field t es) :=
  exists_run (fun _ => ⟨rfl, rfl, rfl⟩) Updates.append (fun e he => apply_cons (h e he)) s

end FloatSettings

/-!
Settings of vector sliders.
-/

/-- The function of a call and its arguments without comments. -/
def Node.call? (n : Node) : Option (Node × List Node) :=
  if n.type = "call_expression" then do
    let function ← n.childByField? "function"
    let arguments ← n.childByField? "arguments"
    return (function, withoutComments arguments.namedChildren)
  else
    none

def Node.Called (n : Node) : Prop :=
  n.type = "call_expression" →
    (n.childByField? "function").isSome ∧ (n.childByField? "arguments").isSome

instance (n : Node) : Decidable n.Called :=
  inferInstanceAs (Decidable (_ → _))

namespace LayoutEntry

/-- The vector that a setting gives if it is an initial value of three arguments of `vec3`. -/
def vector? (e : LayoutEntry) : Option (Except Error (List Number)) :=
  if e.name = "init" then
    match e.value.bind Node.call? with
    | some (function, arguments) =>
      if function.text = "vec3" ∧ arguments.length = 3 then
        some (arguments.mapM (Node.constant .f32))
      else
        none
    | none => none
  else
    none

def vectorRemark? (field : String) (e : LayoutEntry) : Option Warning :=
  if e.name = "color" then
    none
  else if e.name = "init" then
    match e.value.bind Node.call? with
    | some (function, arguments) =>
      if function.text = "vec3" ∧ arguments.length = 3 then
        none
      else
        some (.otherConstructor field function.text arguments.length)
    | none => some (.noConstructor field)
  else
    some (.unknownVectorSetting e.name field)

end LayoutEntry

namespace VectorSettings

open LayoutEntry

structure Updates (S : List LayoutEntry) (s t : VectorSettings) : Prop where
  value : LastGiven vector? (s.value.map .float) S (t.value.map .float)
  color : t.color = (s.color || S.any fun e => e.name = "color")

theorem Updates.append {S S' : List LayoutEntry} {s t u : VectorSettings} (h : Updates S s t)
    (h' : Updates S' t u) : Updates (S ++ S') s u := by
  refine ⟨h.value.append h'.value, ?_⟩
  rw [h'.color, h.color, List.any_append, Bool.or_assoc]

variable {field : String} {e : LayoutEntry}

theorem of_vector?_eq_some (field : String) {r : Except Error (List Number)}
    (h : e.vector? = some r) :
    e.name = "init" ∧ e.vectorRemark? field = none := by
  rw [vector?] at h
  split at h
  · next hname =>
    refine ⟨hname, ?_⟩
    rw [vectorRemark?, if_neg (by simp [hname]), if_pos hname]
    split at h
    · split at h
      · next hvector => simp only [hvector, and_self, ↓reduceIte]
      · cases h
    · cases h
  · cases h

variable (hcall : ∀ v ∈ e.value, v.Called)

include hcall

theorem vectorInitializer_eq (field : String) (hname : e.name = "init") :
    ∃ r : Except Error (Option (List Double)),
      vectorInitializer field e.value = ⟨(e.vectorRemark? field).toList, r⟩ ∧
      (e.vector? = none → r = .ok none) ∧
      (∀ err, e.vector? = some (.error err) → r = .error err) ∧
      ∀ vs, e.vector? = some (.ok vs) → ∃ xs, vs = xs.map .float ∧ r = .ok (some xs) := by
  have hcolor : e.name ≠ "color" := by simp [hname]
  rw [vectorRemark?, vector?, if_neg hcolor, if_pos hname, if_pos hname]
  cases hvalue : e.value with
  | none => exact ⟨_, rfl, fun _ => rfl, nofun, nofun⟩
  | some v =>
    rw [vectorInitializer, Option.bind_some, Node.call?]
    by_cases htype : v.type = "call_expression"
    · obtain ⟨hfunction, harguments⟩ := hcall v hvalue htype
      obtain ⟨function, hfunction⟩ := Option.isSome_iff_exists.mp hfunction
      obtain ⟨arguments, harguments⟩ := Option.isSome_iff_exists.mp harguments
      simp only [Option.filter_some, htype, beq_self_eq_true, ↓reduceIte, hfunction, harguments,
        Option.orElse_eq_orElse, Option.orElse_some, Option.bind_eq_bind, Option.bind_some,
        Option.pure_def]
      split
      · rw [Node.mapM_constant_f32]
        cases (Node.withoutComments arguments.namedChildren).mapM Node.single with
        | error err => exact ⟨_, rfl, nofun, fun _ h => by cases h; rfl, nofun⟩
        | ok xs => exact ⟨_, rfl, nofun, nofun, fun _ h => by cases h; exact ⟨xs, rfl, rfl⟩⟩
      · exact ⟨_, rfl, fun _ => rfl, nofun, nofun⟩
    · simp only [Option.filter_some, htype, beq_iff_eq, ↓reduceIte]
      exact ⟨_, rfl, fun _ => rfl, nofun, nofun⟩

theorem apply_of_error {err : Error} (h : e.vector? = some (.error err)) (s : VectorSettings)
    (es : List LayoutEntry) : apply field s (e :: es) = ⟨[], .error err⟩ := by
  obtain ⟨hname, hremark⟩ := of_vector?_eq_some field h
  obtain ⟨r, hread, -, herror, -⟩ := vectorInitializer_eq hcall field hname
  rw [hremark, herror err h] at hread
  rw [apply, if_neg (by simp [hname]), if_pos hname, hread]
  rfl

theorem apply_cons (h : ∀ r ∈ e.vector?, r.isOk) (s : VectorSettings) :
    ∃ t, Updates [e] s t ∧
      ∀ es, apply field s (e :: es) = .after (e.vectorRemark? field).toList (apply field t es) := by
  by_cases hinit : e.name = "init"
  · have hcolor : e.name ≠ "color" := by simp [hinit]
    obtain ⟨r, hread, hnone, -, hok⟩ := vectorInitializer_eq hcall field hinit
    cases hvector : e.vector? with
    | none =>
      rw [hnone hvector] at hread
      refine ⟨s, ⟨lastGiven_of_none hvector _, by simp [hcolor]⟩, fun es => ?_⟩
      rw [apply, if_neg hcolor, if_pos hinit, hread]
      rfl
    | some given =>
      cases given with
      | error err => cases h _ hvector
      | ok vs =>
        obtain ⟨xs, rfl, hr⟩ := hok vs hvector
        rw [hr] at hread
        refine ⟨{ s with value := xs }, ⟨lastGiven_of_ok hvector _, by simp [hcolor]⟩, fun es => ?_⟩
        rw [apply, if_neg hcolor, if_pos hinit, hread]
        rfl
  · have hvector : e.vector? = none := if_neg hinit
    rw [vectorRemark?, if_neg hinit]
    by_cases hcolor : e.name = "color"
    · refine ⟨{ s with color := true }, ⟨lastGiven_of_none hvector _, by simp [hcolor]⟩,
        fun es => ?_⟩
      rw [apply, if_pos hcolor, if_pos hcolor]
      rfl
    · refine ⟨s, ⟨lastGiven_of_none hvector _, by simp [hcolor]⟩, fun es => ?_⟩
      rw [apply, if_neg hcolor, if_neg hinit, if_neg hcolor]
      rfl

omit hcall

theorem apply_of_allGiven {S : List LayoutEntry} (hcalls : ∀ e ∈ S, ∀ v ∈ e.value, v.Called)
    (h : AllGiven vector? S) (s : VectorSettings) :
    ∃ t, Updates S s t ∧
      ∀ es, apply field s (S ++ es) =
        .after (S.filterMap (vectorRemark? field)) (apply field t es) :=
  exists_run (fun _ => ⟨rfl, (Bool.or_false _).symm⟩) Updates.append
    (fun e he => apply_cons (hcalls e he) (h e he)) s

end VectorSettings

/-!
The settings of a field.
-/

namespace Slider

open LayoutEntry

variable {field : Node} {name : String} {S : List LayoutEntry}

section

variable (hname : field.fieldName = .ok name) (hsingle : field.checkSingle name = .ok ())
  (hsettings : field.fieldSettings = .ok S)

include hname hsingle hsettings

theorem ofField_float (htype : field.fieldType = .ok "float") :
    ofField field =
      (FloatSettings.apply name {} S >>= fun s => pure ⟨some name, .float s.min s.max s.init⟩) := by
  simp only [ofField, Logged.liftM_def, hname, Logged.lift_ok_bind, hsingle, htype, hsettings]
  rfl

theorem ofField_vec3 (htype : field.fieldType = .ok "vec3") :
    ofField field =
      (VectorSettings.apply name {} S >>= fun s => pure ⟨some name, s.toControl⟩) := by
  simp only [ofField, Logged.liftM_def, hname, Logged.lift_ok_bind, hsingle, htype, hsettings]
  rfl

theorem ofField_float_of_allGiven (htype : field.fieldType = .ok "float")
    (hall : AllGiven (number? numericNames name) S) :
    ∃ min max init,
      ofField field = ⟨S.filterMap (floatRemark? name), .ok ⟨some name, .float min max init⟩⟩ ∧
      LastGiven (number? ["min"] name) (.float (.zero false)) S (.float min) ∧
      LastGiven (number? ["max"] name) (.float .one) S (.float max) ∧
      LastGiven (number? ["init"] name) (.float (.zero false)) S (.float init) := by
  obtain ⟨t, ht, happly⟩ := FloatSettings.apply_of_allGiven hall {}
  refine ⟨t.min, t.max, t.init, ?_, ht.min, ht.max, ht.init⟩
  have hread := happly []
  rw [List.append_nil] at hread
  rw [ofField_float hname hsingle hsettings htype, hread]
  exact Logged.after_ok_bind _ t _

theorem ofField_float_of_firstFailing (htype : field.fieldType = .ok "float")
    {before : List LayoutEntry} {err : Error}
    (hfirst : FirstFailing (number? numericNames name) S before err) :
    ofField field = ⟨before.filterMap (floatRemark? name), .error err⟩ := by
  obtain ⟨hbefore, e, behind, rfl, he⟩ := hfirst
  obtain ⟨t, -, happly⟩ := FloatSettings.apply_of_allGiven hbefore {}
  rw [ofField_float hname hsingle hsettings htype, happly, FloatSettings.apply_of_error he,
    Logged.after_error_bind]

variable (hcalls : ∀ e ∈ S, ∀ v ∈ e.value, v.Called)

include hcalls

theorem ofField_vec3_of_allGiven (htype : field.fieldType = .ok "vec3")
    (hall : AllGiven vector? S) :
    ∃ value,
      ofField field = ⟨S.filterMap (vectorRemark? name), .ok ⟨some name,
        if S.any fun e => e.name = "color" then .color value else .vec3 value⟩⟩ ∧
      LastGiven vector? (Control.origin.map .float) S (value.map .float) := by
  obtain ⟨t, ht, happly⟩ := VectorSettings.apply_of_allGiven hcalls hall {}
  refine ⟨t.value, ?_, ht.value⟩
  have hread := happly []
  rw [List.append_nil] at hread
  rw [ofField_vec3 hname hsingle hsettings htype, hread]
  refine (Logged.after_ok_bind _ t _).trans ?_
  rw [VectorSettings.toControl, ht.color]
  rfl

theorem ofField_vec3_of_firstFailing (htype : field.fieldType = .ok "vec3")
    {before : List LayoutEntry} {err : Error} (hfirst : FirstFailing vector? S before err) :
    ofField field = ⟨before.filterMap (vectorRemark? name), .error err⟩ := by
  obtain ⟨hbefore, e, behind, rfl, he⟩ := hfirst
  obtain ⟨hcalls, he'⟩ := List.forall_mem_append.mp hcalls
  obtain ⟨t, -, happly⟩ := VectorSettings.apply_of_allGiven hcalls hbefore {}
  rw [ofField_vec3 hname hsingle hsettings htype, happly,
    VectorSettings.apply_of_error (he' e List.mem_cons_self) he, Logged.after_error_bind]

/--
Each number of a slider is that of the last setting of its name, and so is the vector among the
initial values that are vectors. The first setting that fails ends the reading with its failure.
Settings that are no settings of the slider and initial values that are no vectors change nothing
and are remarked on in their order.
-/
theorem ofField_settings :
    (field.fieldType = .ok "float" →
      (AllGiven (number? numericNames name) S →
        ∃ min max init,
          ofField field =
            ⟨S.filterMap (floatRemark? name), .ok ⟨some name, .float min max init⟩⟩ ∧
          LastGiven (number? ["min"] name) (.float (.zero false)) S (.float min) ∧
          LastGiven (number? ["max"] name) (.float .one) S (.float max) ∧
          LastGiven (number? ["init"] name) (.float (.zero false)) S (.float init)) ∧
      (¬AllGiven (number? numericNames name) S →
        ∃ before err, FirstFailing (number? numericNames name) S before err ∧
          ofField field = ⟨before.filterMap (floatRemark? name), .error err⟩)) ∧
    (field.fieldType = .ok "vec3" →
      (AllGiven vector? S →
        ∃ value,
          ofField field = ⟨S.filterMap (vectorRemark? name), .ok ⟨some name,
            if S.any fun e => e.name = "color" then .color value else .vec3 value⟩⟩ ∧
          LastGiven vector? (Control.origin.map .float) S (value.map .float)) ∧
      (¬AllGiven vector? S →
        ∃ before err, FirstFailing vector? S before err ∧
          ofField field = ⟨before.filterMap (vectorRemark? name), .error err⟩)) := by
  refine ⟨fun htype => ⟨ofField_float_of_allGiven hname hsingle hsettings htype, fun hfails => ?_⟩,
    fun htype => ⟨ofField_vec3_of_allGiven hname hsingle hsettings hcalls htype, fun hfails => ?_⟩⟩
  · obtain ⟨before, err, hfirst⟩ := exists_firstFailing hfails
    exact ⟨before, err, hfirst, ofField_float_of_firstFailing hname hsingle hsettings htype hfirst⟩
  · obtain ⟨before, err, hfirst⟩ := exists_firstFailing hfails
    exact ⟨before, err, hfirst,
      ofField_vec3_of_firstFailing hname hsingle hsettings hcalls htype hfirst⟩

end

def settingFields : Node × Node :=
  (declaration "float" "gain" [
      setting "min" (numeral "0.25"), .symbol ",", .token "identifier" "speed",
      .symbol ",", setting "min" (numeral "0.5")],
    declaration "vec3" "hue" [
      setting "init" vector, .symbol ",", .token "identifier" "color", .symbol ",",
      setting "init" (numeral "4")])
where
  numeral (text : String) : Node := .token "number_literal" text
  vector : Node :=
    .branch "call_expression" [
      .token "identifier" "vec3" "" (some "function"),
      .branch "argument_list" [numeral "1", numeral "2", numeral "-3.5"] (some "arguments")]
  setting (name : String) (value : Node) : Node :=
    .branch "qualifier" [.token "identifier" name, .symbol "=", value]
  declaration (type name : String) (settings : List Node) : Node :=
    .branch "field_declaration" [
      .branch "layout_specification" (.symbol "(" :: settings ++ [.symbol ")"]),
      .token "primitive_type" type, .token "field_identifier" name]

theorem ofField_settings_settingFields :
    (∃ min, ofField settingFields.1 =
        ⟨[.unknownFloatSetting "speed" "gain"], .ok ⟨some "gain", .float min .one (.zero false)⟩⟩ ∧
      (settingFields.numeral "0.5").constant .f32 = .ok (.float min)) ∧
    ∃ value, ofField settingFields.2 =
        ⟨[.noConstructor "hue"], .ok ⟨some "hue", .color value⟩⟩ ∧
      ["1", "2", "-3.5"].mapM (fun text => (settingFields.numeral text).constant .f32) =
        .ok (value.map .float) := by
  constructor
  · have hsettings : settingFields.1.fieldSettings = .ok [
        ⟨"min", some (settingFields.numeral "0.25"), .token "identifier" "min"⟩,
        ⟨"speed", none, .token "identifier" "speed"⟩,
        ⟨"min", some (settingFields.numeral "0.5"), .token "identifier" "min"⟩] := by
      rfl
    have hname : settingFields.1.fieldName = .ok "gain" := by decide +kernel
    obtain ⟨hfloat, -⟩ :=
      ofField_settings hname (by decide +kernel) hsettings (by decide +kernel)
    obtain ⟨min, max, init, hread, hmin, hmax, hinit⟩ :=
      (hfloat (by decide +kernel)).1 (by decide +kernel)
    cases (show Number.float max = .float .one from hmax)
    cases (show Number.float init = .float (.zero false) from hinit)
    exact ⟨min, hread, hmin⟩
  · have hsettings : settingFields.2.fieldSettings = .ok [
        ⟨"init", some settingFields.vector, .token "identifier" "init"⟩,
        ⟨"color", none, .token "identifier" "color"⟩,
        ⟨"init", some (settingFields.numeral "4"), .token "identifier" "init"⟩] := by
      rfl
    have hname : settingFields.2.fieldName = .ok "hue" := by decide +kernel
    obtain ⟨-, hvector⟩ :=
      ofField_settings hname (by decide +kernel) hsettings (by decide +kernel)
    obtain ⟨value, hread, hvalue⟩ := (hvector (by decide +kernel)).1 (by decide +kernel)
    exact ⟨value, hread, hvalue⟩

end Slider

end ShaderParams
