/-
Values as JSON and back.

The encoder goes down from a value as a copy is made, one level of elements at a time
(`toJsonAt_of_container`), and stops at the first element that has no JSON value.  Its error says
what is there (`explains_of_toJsonAt`), and without an error there is no cause for one
(`shallow_of_toJsonAt`).

The decoder makes the containers in the order in which a copy makes them.  So decoding what has
been encoded is copying (`ofJson_of_toJsonAt`), and what is known of copies carries over.

All this is about JSON values.  Their texts are the codec's, which is any codec that writes and
reads standard JSON; the one of the program is such a codec.

Main result: `Builtin.json_faithful`.
-/
import ModalScript.Proofs.Fallible
import ModalScript.Proofs.Json.RoundTrip
import ModalScript.Proofs.Value.DeepCopy
import ModalScript.Script.Builtin

namespace ModalScript

/-- The JSON value of a container, from those of its elements. -/
def Shape.toJson : Shape → List Json → Json
  | .list _, js => .array js
  | .dict keys, js => .object (keys.zip js)
  | .scalar _, _ => .null

namespace Heap

variable {h h' : Heap} {n : Nat} {v w u : Value} {j : Json}

/-- What a value reaches is the value, or an element reaches it. -/
theorem Reaches.eq_or_element (hu : h.Reaches v u) : u = v ∨ ∃ w ∈ h.elements v, h.Reaches w u := by
  obtain ⟨p, hp⟩ := hu
  cases p with
  | nil => exact .inl (Option.some.inj hp).symm
  | cons i p =>
    obtain ⟨w, hw, hp⟩ := Option.bind_eq_some_iff.mp hp
    exact .inr ⟨w, List.mem_of_getElem? hw, p, hp⟩

/-! ### What has a JSON value -/

/-- The JSON value of a container is made from those of its elements. -/
theorem toJsonAt_of_container (hv : v.isContainer = true) :
    h.toJsonAt (n + 1) v = ((h.elements v).mapM (h.toJsonAt n)).map (h.shape v).toJson := by
  cases v with
  | list r =>
    show ((h.items r).mapM (h.toJsonAt n)).bind _ = ((h.items r).mapM (h.toJsonAt n)).map _
    cases (h.items r).mapM (h.toJsonAt n) <;> rfl
  | dict r =>
    show ((h.table r).entries.mapM fun e : String × Value => do
        return (e.1, ← h.toJsonAt n e.2)).bind _ =
      ((h.table r).values.mapM (h.toJsonAt n)).map _
    rw [Value.mapM_entries]
    show (((h.table r).values.mapM (h.toJsonAt n)).bind _).bind _ = _
    cases (h.table r).values.mapM (h.toJsonAt n) <;> rfl
  | _ => cases hv

/-- The JSON value of a container holds those of its elements. -/
theorem forall₂_of_toJsonAt (hv : v.isContainer = true) (hj : h.toJsonAt (n + 1) v = .ok j) :
    ∃ js, List.Forall₂ (fun w j => h.toJsonAt n w = .ok j) (h.elements v) js ∧
      (h.shape v).toJson js = j := by
  rw [toJsonAt_of_container hv] at hj
  obtain ⟨js, hjs, hj⟩ := except_map_eq_ok hj
  exact ⟨js, forall₂_of_mapM_eq_ok hjs, hj⟩

theorem exists_toJsonAt_of_element (hj : h.toJsonAt (n + 1) v = .ok j) (hw : w ∈ h.elements v) :
    ∃ j', h.toJsonAt n w = .ok j' := by
  cases hv : v.isContainer with
  | true =>
    obtain ⟨js, hjs, -⟩ := forall₂_of_toJsonAt hv hj
    obtain ⟨j', -, hj'⟩ := exists_of_mem_forall₂ hjs hw
    exact ⟨j', hj'⟩
  | false =>
    rw [elements_of_not_container hv] at hw
    cases hw

/-- A value with a JSON value is not nested too deep, and there is no function in it. -/
theorem shallow_of_toJsonAt (hj : h.toJsonAt n v = .ok j) :
    h.Shallow n v ∧ ∀ name, ¬ h.Reaches v (.funcref name) := by
  induction n generalizing v j with
  | zero => cases hj
  | succ n ih =>
    have helement (w : Value) (hw : w ∈ h.elements v) :
        h.Shallow n w ∧ ∀ name, ¬ h.Reaches w (.funcref name) := by
      obtain ⟨j', hj'⟩ := exists_toJsonAt_of_element hj hw
      exact ih hj'
    refine ⟨shallow_succ_iff.mpr fun w hw => (helement w hw).1, fun name hname => ?_⟩
    rcases Reaches.eq_or_element hname with rfl | ⟨w, hw, hname⟩
    · cases hj
    · exact (helement w hw).2 name hname

/-- What an error of the encoder says about a value. -/
def Explains (h : Heap) (n : Nat) (v : Value) : EncodeError → Prop
  | .nestedTooDeep => ¬ h.Shallow n v
  | .funcref name => h.Reaches v (.funcref name)

theorem Explains.of_element {e : EncodeError} (hw : w ∈ h.elements v) (he : h.Explains n w e) :
    h.Explains (n + 1) v e := by
  cases e with
  | nestedTooDeep => exact fun hv => he (shallow_succ_iff.mp hv w hw)
  | funcref name => exact Reaches.of_element hw he

/-- An error of the encoder says what is there. -/
theorem explains_of_toJsonAt {e : EncodeError} (he : h.toJsonAt n v = .error e) :
    h.Explains n v e := by
  induction n generalizing v with
  | zero =>
    cases he
    exact not_shallow_zero
  | succ n ih =>
    cases hv : v.isContainer with
    | true =>
      rw [toJsonAt_of_container hv] at he
      obtain ⟨w, hw, he⟩ := exists_of_mapM_eq_error (except_map_eq_error he)
      exact (ih he).of_element hw
    | false =>
      cases v with
      | list r | dict r => cases hv
      | funcref name =>
        cases he
        exact .refl h _
      | _ => cases he

/-- Some path leads through more than `nestingLimit` elements. -/
def TooDeep (h : Heap) (v : Value) : Prop :=
  ∃ p w, h.follow v p = some w ∧ nestingLimit < p.length

/-- Some path leads to a function. -/
def HoldsFunction (h : Heap) (v : Value) : Prop :=
  ∃ name, h.Reaches v (.funcref name)

theorem not_shallow_iff_tooDeep : ¬ h.Shallow (nestingLimit + 1) v ↔ h.TooDeep v := by
  simp only [shallow_iff_length_le, not_forall, Nat.not_le, exists_prop, TooDeep]

theorem Explains.refused {e : EncodeError} (he : h.Explains (nestingLimit + 1) v e) :
    h.TooDeep v ∨ h.HoldsFunction v := by
  cases e with
  | nestedTooDeep => exact .inl (not_shallow_iff_tooDeep.mp he)
  | funcref name => exact .inr ⟨name, he⟩

/-- There is a JSON value, or there is a cause that there is none. -/
theorem not_refused_of_toJson (hj : h.toJson v = .ok j) : ¬ (h.TooDeep v ∨ h.HoldsFunction v) := by
  obtain ⟨hshallow, hfunction⟩ := shallow_of_toJsonAt hj
  rintro (hdeep | ⟨name, hname⟩)
  · exact not_shallow_iff_tooDeep.mpr hdeep hshallow
  · exact hfunction name hname

/-- Without floats a JSON value is one that is read as it is written. -/
theorem fits_of_toJsonAt (hj : h.toJsonAt n v = .ok j) (hfloat : ∀ x, ¬ h.Reaches v (.float x)) :
    Json.Fits n j := by
  induction n generalizing v j with
  | zero => cases hj
  | succ n ih =>
    cases v with
    | integer i =>
      cases hj
      exact .integer _ i
    | float x => exact absurd (.refl h _) (hfloat x)
    | string s =>
      cases hj
      exact .string _ s
    | funcref name => cases hj
    | list r =>
      obtain ⟨js, hjs, rfl⟩ := forall₂_of_toJsonAt rfl hj
      refine .array fun j hj => ?_
      obtain ⟨w, hw, hj⟩ := exists_of_mem_forall₂ hjs.flip hj
      exact ih hj fun x hx => hfloat x (hx.of_element hw)
    | dict r =>
      obtain ⟨js, hjs, rfl⟩ := forall₂_of_toJsonAt rfl hj
      have hlength : (h.table r).keys.length ≤ js.length := by
        rw [← hjs.length_eq]
        simp only [elements, Dict.keys, Dict.values, List.length_map, Nat.le_refl]
      refine .object ?_ fun m hm => ?_
      · rw [List.map_fst_zip hlength]
        exact (h.table r).sorted_keys
      obtain ⟨w, hw, hj⟩ := exists_of_mem_forall₂ hjs.flip (List.of_mem_zip hm).2
      exact ih hj fun x hx => hfloat x (hx.of_element hw)

end Heap

/-! ### Decoding what has been encoded -/

namespace Value

open Heap

variable {h h' : Heap} {n : Nat} {v : Value} {vs : List Value} {j : Json} {js : List Json}

theorem ofMembers_zip {keys : List String} (hlength : keys.length = js.length) :
    ofMembers (keys.zip js) = do let vs ← ofJsons js; return keys.zip vs := by
  induction js generalizing keys with
  | nil =>
    obtain rfl := List.eq_nil_of_length_eq_zero hlength
    rfl
  | cons j js ih =>
    cases keys with
    | nil => cases hlength
    | cons k keys =>
      rw [List.zip_cons_cons, ofMembers, ofJsons, ih (Nat.succ.inj hlength)]
      simp only [bind_assoc, pure_bind, List.zip_cons_cons]

/-- A container is decoded to a container of the values of its elements. -/
theorem ofJson_toJson (hv : v.isContainer = true) (hlength : (h.elements v).length = js.length)
    (h' : Heap) :
    ofJson ((h.shape v).toJson js) h' =
      (ofJsons js h').map fun r => r.2.build (h.shape v) r.1 := by
  cases v with
  | list r =>
    show (ofJsons js h').bind _ = _
    cases ofJsons js h' <;> rfl
  | dict r =>
    have hkeys : (h.table r).keys.length = js.length := by
      rw [← hlength]
      simp only [elements, Dict.keys, Dict.values, List.length_map]
    show (ofMembers ((h.table r).keys.zip js) h').bind _ = _
    rw [ofMembers_zip hkeys]
    show ((ofJsons js h').bind _).bind _ = _
    cases ofJsons js h' <;> rfl
  | _ => cases hv

theorem ofJsons_cons (j : Json) (js : List Json) (h : Heap) :
    ofJsons (j :: js) h =
      (ofJson j h).bind fun r => (ofJsons js r.2).map fun r' => (r.1 :: r'.1, r'.2) := by
  rw [ofJsons]
  show (ofJson j h).bind _ = _
  refine congrArg (ofJson j h).bind (funext fun r => ?_)
  show (ofJsons js r.2).bind _ = _
  cases ofJsons js r.2 <;> rfl

/-- Decoding the JSON values of values is copying these, one after the other. -/
theorem ofJsons_of_forall₂
    (hdecode : ∀ {v j h'}, h.toJsonAt n v = .ok j → h.Closed v → h.Grown h' →
      ofJson j h' = copyAt n v h')
    (hjs : List.Forall₂ (fun v j => h.toJsonAt n v = .ok j) vs js)
    (hclosed : ∀ v ∈ vs, h.Closed v) (hgrown : h.Grown h') :
    ofJsons js h' = vs.mapM (copyAt n) h' := by
  induction hjs generalizing h' with
  | nil => rfl
  | @cons v j vs js hj _ ih =>
    rw [List.forall_mem_cons] at hclosed
    obtain ⟨w, h₁, hw, hcopy⟩ := copiesShallow n (hgrown.closed hclosed.1)
      ((hgrown.shallow_iff hclosed.1).mpr (shallow_of_toJsonAt hj).1)
    rw [ofJsons_cons, hdecode hj hclosed.1 hgrown, hw, mapM_cons_apply_of_ok vs hw]
    show (ofJsons js h₁).map _ = _
    rw [ih hclosed.2 (hgrown.trans hcopy.grown)]

/-- Decoding the JSON value of a value is copying the value. -/
theorem ofJson_of_toJsonAt (hj : h.toJsonAt n v = .ok j) (hclosed : h.Closed v)
    (hgrown : h.Grown h') : ofJson j h' = copyAt n v h' := by
  induction n generalizing v j h' with
  | zero => cases hj
  | succ n ih =>
    cases hv : v.isContainer with
    | true =>
      obtain ⟨js, hjs, rfl⟩ := forall₂_of_toJsonAt hv hj
      -- the container is the same when it is copied
      have hsame : h.SameAt h' v := hgrown.same v (hclosed v (.refl h v))
      rw [ofJson_toJson hv hjs.length_eq, copyAt_succ, hsame.elements, hsame.shape,
        ofJsons_of_forall₂ ih hjs (fun w hw => hclosed.element hw) hgrown]
    | false =>
      cases v with
      | list r | dict r => cases hv
      | funcref name => cases hj
      | _ =>
        cases hj
        rfl

end Value

/-! ### The functions of the script language -/

namespace Builtin

open Heap

theorem run_jsonEncode [Json.Codec] (call : Caller) (v : Value) (site : CallSite) (s : State) :
    Builtin.run call .jsonEncode [v] site s =
      match s.session.heap.toJson v with
      | .ok j => (.value (.string (Json.Codec.write j)), s)
      | .error e => (.failed (.eval (.invalidArgument e.message)), s) := by
  have hrun : Builtin.run call .jsonEncode [v] site = Builtin.apply call .jsonEncode [v] site := rfl
  rw [hrun, Builtin.apply]
  simp only [Interp.readExcept, List.getElem?_cons_zero, Option.getD_some, Heap.encode]
  cases s.session.heap.toJson v <;> rfl

/-- If there is no text, the error says why: it is made of what stops the value from being
written, and this is there. -/
theorem jsonEncode_message [Json.Codec] {call : Caller} {v : Value} {site : CallSite}
    {s : State} {message : String}
    (hm : Builtin.run call .jsonEncode [v] site s =
      (.failed (.eval (.invalidArgument message)), s)) :
    ∃ e : EncodeError, message = Json.Codec.refusal e.reason ∧
      s.session.heap.Explains (nestingLimit + 1) v e := by
  rw [run_jsonEncode] at hm
  cases hj : s.session.heap.toJson v with
  | error e =>
    rw [hj] at hm
    cases hm
    exact ⟨e, rfl, explains_of_toJsonAt hj⟩
  | ok j =>
    rw [hj] at hm
    cases hm

theorem run_jsonDecode [Json.Codec] {text : String} {j : Json}
    (hj : Json.Codec.read text = .ok j) (call : Caller) (site : CallSite) :
    Builtin.run call .jsonDecode [.string text] site = Interp.onHeap (Value.ofJson j) := by
  show Interp.onHeap (Value.decode text) = _
  rw [Value.decode, hj]

/-- A value `w` of a heap `h'` has the lengths, keys and scalars of a value `v` of `h`, on the same
paths, and is equal to it.  The containers of the heap `old` are what they were; those of `w` are
new, each of them at the end of one path. -/
structure MadeAnew (h : Heap) (v : Value) (old h' : Heap) (w : Value) : Prop where
  shapes : ∀ p, h'.shapeAt w p = h.shapeAt v p
  equal : h'.equal v w = .ok true
  kept : ∀ c, old.Has c → h'.Has c ∧ old.SameAt h' c
  fresh : ∀ c, h'.Reaches w c → c.isContainer →
    ¬ old.Has c ∧ h'.Has c ∧ ∃! p, h'.follow w p = some c

/-- A copy that is made later is made anew. -/
theorem MadeAnew.of_copyOf {h : Heap} {v : Value} (hclosed : h.Closed v)
    (hshallow : h.Shallow (nestingLimit + 1) v) (hfloat : ∀ x, ¬ h.Reaches v (.float x))
    {old h' : Heap} (hgrown : h.Grown old) {w : Value}
    (hcopy : CopyOf old (old.follow v) h' (h'.follow w)) : MadeAnew h v old h' w where
  shapes p := (hcopy.shapes p).trans ((hgrown.sameFrom hclosed).shapeAt p)
  equal := by
    refine hcopy.equal (hgrown.closed hclosed) ((hgrown.shallow_iff hclosed).mpr hshallow) ?_
    rintro x ⟨p, hp⟩
    rw [(hgrown.sameFrom hclosed).follow] at hp
    exact absurd ⟨p, hp⟩ (hfloat x)
  kept c hc := ⟨hcopy.grown.has c hc, hcopy.grown.same c hc⟩
  fresh _ hc := hcopy.existsUnique_path hc

section

variable [Json.Codec] {limit : Nat}

/-- The text of a value is decoded to a copy of it, in the heap of a later state. -/
theorem run_jsonDecode_of_toJson (hwrites : Json.Codec.WritesStandard)
    (hreads : Json.Codec.ReadsStandard limit) (hlimit : nestingLimit + 1 < limit) {h : Heap}
    {v : Value} {j : Json} (hj : h.toJson v = .ok j) (hclosed : h.Closed v)
    (hfloat : ∀ x, ¬ h.Reaches v (.float x)) {t : State} (hgrown : h.Grown t.session.heap)
    (call : Caller) (site : CallSite) :
    ∃ w h', Builtin.run call .jsonDecode [.string (Json.Codec.write j)] site t =
        (.value w, { t with session := { t.session with heap := h' } }) ∧
      CopyOf t.session.heap (t.session.heap.follow v) h' (h'.follow w) := by
  -- the text is standard, and not too deep for the codec
  have hfits : Json.Fits (nestingLimit + 1) j := fits_of_toJsonAt hj hfloat
  have hread : Json.Codec.read (Json.Codec.write j) = .ok j :=
    hreads _ j (hwrites _ j hfits) _ hlimit hfits
  -- decoding is copying, and the value is the same in the later heap
  obtain ⟨w, h', hw, hcopy⟩ := Value.copiesShallow (nestingLimit + 1) (hgrown.closed hclosed)
    ((hgrown.shallow_iff hclosed).mpr (shallow_of_toJsonAt hj).1)
  refine ⟨w, h', ?_, hcopy⟩
  rw [run_jsonDecode hread, Interp.onHeap, Value.ofJson_of_toJsonAt hj hclosed hgrown, hw]

/-- **JSON is faithful.**  The codec is any one that writes standard JSON and reads it, integers of
64 bits exactly, with less than `limit` brackets open at once, where more than `nestingLimit + 1`
are allowed.  The value is any value; its containers may be shared and may hold themselves.

It has no JSON text just if some path leads through more than `nestingLimit` elements or to a
function.  Encoding never changes the state.

If there are no floats in the value, its text is decoded, now or when there are more containers,
to an equal value that is made anew. -/
theorem json_faithful (hwrites : Json.Codec.WritesStandard)
    (hreads : Json.Codec.ReadsStandard limit) (hlimit : nestingLimit + 1 < limit)
    (call : Caller) (site : CallSite) (s : State) (v : Value) :
    let h := s.session.heap
    let encoding := Builtin.run call .jsonEncode [v] site s
    (h.TooDeep v ∨ h.HoldsFunction v ↔
      ∃ message, encoding = (.failed (.eval (.invalidArgument message)), s)) ∧
    (¬ (h.TooDeep v ∨ h.HoldsFunction v) →
      ∃ text, encoding = (.value (.string text), s) ∧
        (h.Closed v → (∀ x, ¬ h.Reaches v (.float x)) →
          ∀ t : State, h.Grown t.session.heap →
            ∃ w h', Builtin.run call .jsonDecode [.string text] site t =
                (.value w, { t with session := { t.session with heap := h' } }) ∧
              MadeAnew h v t.session.heap h' w)) := by
  intro h encoding
  have hencoding : encoding = _ := run_jsonEncode call v site s
  cases hj : h.toJson v with
  | error e =>
    rw [hj] at hencoding
    have hrefused := (explains_of_toJsonAt hj).refused
    exact ⟨⟨fun _ => ⟨_, hencoding⟩, fun _ => hrefused⟩, fun hnot => absurd hrefused hnot⟩
  | ok j =>
    rw [hj] at hencoding
    have haccepted := not_refused_of_toJson hj
    refine ⟨⟨fun hv => absurd hv haccepted, fun ⟨message, hm⟩ => ?_⟩, fun _ => ⟨_, hencoding, ?_⟩⟩
    · rw [hencoding] at hm
      cases hm
    · intro hclosed hfloat t hgrown
      obtain ⟨w, h', hw, hcopy⟩ :=
        run_jsonDecode_of_toJson hwrites hreads hlimit hj hclosed hfloat hgrown call site
      exact ⟨w, h', hw,
        MadeAnew.of_copyOf hclosed (shallow_of_toJsonAt hj).1 hfloat hgrown hcopy⟩

end

/-- With the codec of the program, a list that holds another one twice is decoded to a list with
two lists in it; a list that holds itself has no text. -/
theorem json_faithful_of_shared :
    let call : Caller := fun _ _ _ => .exhausted
    let h : Heap := ⟨#[[.string "\n", .list ⟨1⟩, .list ⟨1⟩], [.integer (-5)], [.list ⟨2⟩]], #[]⟩
    let s : State := { (default : State) with session := { (default : Session) with heap := h } }
    Json.Codec.WritesStandard ∧ Json.Codec.ReadsStandard 128 ∧ nestingLimit + 1 < 128 ∧
    h.Closed (.list ⟨0⟩) ∧ (∀ x, ¬ h.Reaches (.list ⟨0⟩) (.float x)) ∧
    (∃ text w h', Builtin.run call .jsonEncode [.list ⟨0⟩] {} s = (.value (.string text), s) ∧
      text = "[\"\\n\",[-5],[-5]]" ∧
      Builtin.run call .jsonDecode [.string text] {} s =
        (.value w, { s with session := { s.session with heap := h' } }) ∧
      h'.equal (.list ⟨0⟩) w = .ok true ∧ h'.shapeAt w [2, 0] = some (.scalar (.integer (-5)))) ∧
    ∃ message, Builtin.run call .jsonEncode [.list ⟨2⟩] {} s =
      (.failed (.eval (.invalidArgument message)), s) := by
  intro call h s
  -- everything there is has been created, and is no float
  have helements (v : Value) (hv : h.Has v ∧ ∀ x, v ≠ .float x) (w : Value)
      (hw : w ∈ h.elements v) : h.Has w ∧ ∀ x, w ≠ .float x := by
    match v, hv.1 with
    | .list ⟨0⟩, _ =>
      have hw : w ∈ [Value.string "\n", .list ⟨1⟩, .list ⟨1⟩] := hw
      rcases List.mem_cons.mp hw with rfl | hw
      · exact ⟨trivial, nofun⟩
      · obtain rfl : w = .list ⟨1⟩ := by simpa using hw
        exact ⟨Nat.lt_add_of_pos_left Nat.two_pos, nofun⟩
    | .list ⟨1⟩, _ =>
      cases List.mem_singleton.mp hw
      exact ⟨trivial, nofun⟩
    | .list ⟨2⟩, _ =>
      cases List.mem_singleton.mp hw
      exact ⟨Nat.lt_succ_self 2, nofun⟩
    | .dict r, hr => exact absurd hr (Nat.not_lt_zero _)
  have hlist : h.Has (.list ⟨0⟩) ∧ ∀ x, Value.list ⟨0⟩ ≠ .float x := ⟨Nat.succ_pos 2, nofun⟩
  have hclosed : h.Closed (.list ⟨0⟩) := fun w hw => (hw.inherits helements hlist).1
  have hfloat : ∀ x, ¬ h.Reaches (.list ⟨0⟩) (.float x) :=
    fun x hx => (hx.inherits helements hlist).2 x rfl
  have hlimit : nestingLimit + 1 < 128 := by decide
  obtain ⟨hrefused, hencoded⟩ := json_faithful Json.compact_writesStandard
    Json.compact_readsStandard hlimit call {} s (.list ⟨0⟩)
  obtain ⟨hcyclic, -⟩ := json_faithful Json.compact_writesStandard
    Json.compact_readsStandard hlimit call {} s (.list ⟨2⟩)
  have hrun : Builtin.run call .jsonEncode [.list ⟨0⟩] {} s =
      (.value (.string "[\"\\n\",[-5],[-5]]"), s) := by
    rfl
  obtain ⟨text, htext, hdecoded⟩ := hencoded fun hnot => by
    obtain ⟨message, hm⟩ := hrefused.mp hnot
    rw [hrun] at hm
    cases hm
  obtain rfl : "[\"\\n\",[-5],[-5]]" = text := by
    rw [hrun] at htext
    cases htext
    rfl
  obtain ⟨w, h', hw, hanew⟩ := hdecoded hclosed hfloat s (.refl h)
  exact ⟨Json.compact_writesStandard, Json.compact_readsStandard, hlimit, hclosed, hfloat,
    ⟨_, w, h', hrun, rfl, hw, hanew.equal, hanew.shapes [2, 0]⟩,
    hcyclic.mp (.inl ⟨List.replicate 101 0, .list ⟨2⟩, rfl, by decide⟩)⟩

end Builtin

end ModalScript
