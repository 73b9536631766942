import Tabula.Proofs.GrammarReading
import Tabula.Proofs.Printable
import Tabula.Proofs.ProductValues
import Tabula.Scheme.Printer

/-!
# Written types are read back

The written form of a type or unit is read as an equal type or unit exactly if it is printable.

One half is a derivation: the written form of a printable type consists of tokens from which the grammar
derives it, with the descriptions that the catalog has for its units.  The other half is that nothing but
printable types is ever read.
-/

namespace Tabula

open List (Forall₂)

theorem toList_intercalate_cons (sep x : String) (xs : List String) :
    (sep.intercalate (x :: xs)).toList = x.toList ++ xs.flatMap fun y => sep.toList ++ y.toList := by
  induction xs generalizing x with
  | nil => simp
  | cons y xs ih =>
      rw [String.intercalate_cons_cons, String.toList_append, String.toList_append, ih]
      simp

/-- The text stands for the phrase: its tokens form the phrase, whatever follows that continues no word. -/
def Phrase.WrittenAs (units : UnitCatalog) (p : Phrase) (cs : List Char) : Prop :=
  ∃ ts, Derives units ts p ∧ Token.Spells cs ts

namespace Product

variable {α : Type} [Ord α]

theorem exists_raise?_single {a : α} {p : Exponent} (hp : p ≠ 0) :
    ∃ w, (single a).raise? p = some w ∧ w.factors = [(a, p)] := by
  have hfits : ∀ f ∈ (single a).factors, Exponent.Fits (f.2.val * p.val) := by
    simp [single, p.fits_val]
  refine ⟨(single a).raise p, if_pos hfits, ?_⟩
  simp [raise, single, raiseFactor, hp]

variable [Std.TransOrd α]

/-- A factor that comes after all others is put behind them. -/
theorem exists_times?_of_lt {u v : Product α} {a : α} {p : Exponent} (hv : v.factors = [(a, p)])
    (h : ∀ f ∈ u.factors, compare f.1 a = .lt) :
    ∃ w, u.times? v = some w ∧ w.factors = u.factors ++ [(a, p)] := by
  have hp : p ≠ 0 := v.nonzero (a, p) (by simp [hv])
  have hsum : Exponent.ofInt? ((u.power a).val + p.val) = some p := by
    rw [power, powerIn_of_gt h, Exponent.ofInt?_eq_some_iff]
    simp
  refine ⟨u.set a p, ?_, setIn_of_gt h hp⟩
  simp [times?, hv, addPower?, hsum]

end Product

namespace UnitScheme

variable {units : UnitCatalog}

/-- How a factor of a unit is written. -/
def factorText (f : Atom Name × Exponent) : String :=
  atomText f.1 ++ if f.2 = 1 then "" else "^" ++ f.2.text

theorem atom_writtenAs (hunits : units.Built) {a : Atom Name} (ha : a.Printable units) :
    ∃ b, compare b a = .eq ∧ (Phrase.atom b).WrittenAs units (atomText a).toList := by
  cases a with
  | var v =>
      refine ⟨.var v, Std.ReflCmp.compare_self, _, .unitVar (Token.asName?_ofWord v), ?_⟩
      rw [atomText, String.toList_append]
      exact .unitVar (.blank ' ' rfl (.word ha))
  | unit u =>
      obtain ⟨w, hw⟩ := Option.isSome_iff_exists.1 ha
      have hname := UnitCatalog.name_of_find? hw
      have hvalid : u.name.isValid = true := hname ▸ hunits.isValid w (UnitCatalog.mem_of_find? hw)
      have hcompare : compare (.unit w : Atom Name) (.unit u) = .eq :=
        Atom.compare_unit_eq_iff.2 ⟨u, rfl, hname.symm⟩
      exact ⟨.unit w, hcompare, _, .unitName (Token.asName?_ofWord u.name) hw, .word hvalid⟩

theorem factor_writtenAs (hunits : units.Built) {f : Atom Name × Exponent} (hf : f.1.Printable units)
    (hp : f.2 ≠ 0) :
    ∃ b w, compare b f.1 = .eq ∧ w.factors = [(b, f.2)] ∧
      (Phrase.single w).WrittenAs units (factorText f).toList := by
  obtain ⟨b, hb, ts, hderives, hspells⟩ := atom_writtenAs hunits hf
  by_cases hone : f.2 = 1
  · refine ⟨b, .single b, hb, by rw [hone]; rfl, ts, hderives.firstPower, ?_⟩
    rw [factorText, if_pos hone, String.append_empty]
    exact hspells
  · obtain ⟨w, hw, hfactors⟩ := Product.exists_raise?_single (a := b) hp
    refine ⟨b, w, hb, hfactors, ts ++ [.pow, .int f.2], hderives.power hw, ?_⟩
    rw [factorText, if_neg hone, String.toList_append, String.toList_append]
    exact hspells.append ((Token.Spells.int f.2).symbol '^' rfl) (Token.boundary_of_ofChar? rfl)

/-- Further factors are written behind those that come before them. -/
theorem moreFactors_writtenAs (hunits : units.Built) {fs : List (Atom Name × Exponent)}
    (hprintable : ∀ f ∈ fs, f.1.Printable units) (hnonzero : ∀ f ∈ fs, f.2 ≠ 0)
    (hfs : Ascending Prod.fst fs) {u : UnitScheme} {cs : List Char}
    (hu : (Phrase.unit u).WrittenAs units cs) (hlt : ∀ g ∈ u.factors, ∀ f ∈ fs, compare g.1 f.1 = .lt) :
    ∃ w gs, w.factors = u.factors ++ gs ∧ Forall₂ (fun g f => compare g.1 f.1 = .eq ∧ g.2 = f.2) gs fs ∧
      (Phrase.unit w).WrittenAs units (cs ++ fs.flatMap fun f => '*' :: (factorText f).toList) := by
  induction fs generalizing u cs with
  | nil => exact ⟨u, [], by simp, .nil, by simpa using hu⟩
  | cons f fs ih =>
      obtain ⟨hf, hrest⟩ := List.forall_mem_cons.1 hprintable
      obtain ⟨hp, hnonzero⟩ := List.forall_mem_cons.1 hnonzero
      obtain ⟨hfirst, hfs⟩ := List.pairwise_cons.1 hfs
      obtain ⟨b, x, hb, hx, ts', hderives', hspells'⟩ := factor_writtenAs hunits hf hp
      obtain ⟨ts, hderives, hspells⟩ := hu
      have hlast : ∀ g ∈ u.factors, compare g.1 b = .lt := fun g hg =>
        Std.TransCmp.lt_of_lt_of_eq (hlt g hg f List.mem_cons_self) (Std.OrientedCmp.eq_symm hb)
      obtain ⟨v, hv, hfactors⟩ := Product.exists_times?_of_lt hx hlast
      have hwritten : (Phrase.unit v).WrittenAs units (cs ++ '*' :: (factorText f).toList) :=
        ⟨_, hderives.times hderives'.oneSingle hv, hspells.append (hspells'.symbol '*' rfl)
          (Token.boundary_of_ofChar? rfl)⟩
      have hlt' : ∀ g ∈ v.factors, ∀ f ∈ fs, compare g.1 f.1 = .lt := by
        intro g hg f' hf'
        rw [hfactors] at hg
        rcases List.mem_append.1 hg with hg | hg
        · exact hlt g hg f' (List.mem_cons_of_mem _ hf')
        · obtain rfl := List.mem_singleton.1 hg
          exact Std.TransCmp.lt_of_eq_of_lt hb (hfirst f' hf')
      obtain ⟨w, gs, hw, hsame, hall⟩ := ih hrest hnonzero hfs hwritten hlt'
      exact ⟨w, (b, f.2) :: gs, by simp [hw, hfactors], .cons ⟨hb, rfl⟩ hsame, by simpa using hall⟩

/-- A printable unit is derived from its written form, up to descriptions. -/
theorem writtenAs (hunits : units.Built) {u : UnitScheme} (hu : u.Printable units) :
    ∃ v, v == u ∧ (Phrase.unit v).WrittenAs units (text u).toList := by
  cases hfactors : u.factors with
  | nil =>
      refine ⟨.one, Product.beq_iff.2 (by rw [hfactors]; exact .nil), [.int 1], ?_, ?_⟩
      · exact .oneQuotient (.oneSingle .one)
      · rw [text, Product.textWith, hfactors]
        exact .int 1
  | cons f fs =>
      have hprintable : ∀ g ∈ f :: fs, g.1.Printable units := hfactors ▸ hu
      have hnonzero : ∀ g ∈ f :: fs, g.2 ≠ 0 := hfactors ▸ u.nonzero
      have hordered : Ascending Prod.fst (f :: fs) := hfactors ▸ u.ordered
      obtain ⟨hf, hrest⟩ := List.forall_mem_cons.1 hprintable
      obtain ⟨hp, hnonzero⟩ := List.forall_mem_cons.1 hnonzero
      obtain ⟨hfirst, hfs⟩ := List.pairwise_cons.1 hordered
      obtain ⟨b, x, hb, hx, ts, hderives, hspells⟩ := factor_writtenAs hunits hf hp
      have hlt : ∀ g ∈ x.factors, ∀ f ∈ fs, compare g.1 f.1 = .lt := by
        intro g hg f' hf'
        rw [hx, List.mem_singleton] at hg
        rw [hg]
        exact Std.TransCmp.lt_of_eq_of_lt hb (hfirst f' hf')
      obtain ⟨w, gs, hw, hsame, hwritten⟩ := moreFactors_writtenAs hunits hrest hnonzero hfs
        ⟨ts, hderives.oneSingle.oneQuotient, hspells⟩ hlt
      refine ⟨w, Product.beq_iff.2 ?_, ?_⟩
      · rw [hw, hx, hfactors]
        exact .cons ⟨hb, rfl⟩ hsame
      · have htext : text u = "*".intercalate ((f :: fs).map factorText) := by
          rw [text, Product.textWith, hfactors]
          rfl
        rw [htext, List.map_cons, toList_intercalate_cons, List.flatMap_map]
        exact hwritten

end UnitScheme

namespace Scheme

variable {units : UnitCatalog}

theorem boundary_textArgs (args : List (Arg UnitScheme Scheme)) : Token.Boundary (textArgs args).toList := by
  match args with
  | [] => exact Token.boundary_nil
  | .unit u :: args =>
      simp only [textArgs, String.toList_append]
      exact Token.boundary_of_ofChar? rfl
  | .type t :: args =>
      simp only [textArgs, String.toList_append]
      exact Token.boundary_of_ofChar? rfl

theorem args_writtenAs (hunits : units.Built) {args : List (Arg UnitScheme Scheme)}
    (hprintable : ∀ u, .unit u ∈ args → UnitScheme.Printable units u)
    (htypes : ∀ t, .type t ∈ args → ∃ s, s == t ∧ (Phrase.type s).WrittenAs units (text t).toList) :
    ∃ as, beqArgs as args = true ∧ (Phrase.args as).WrittenAs units (textArgs args).toList := by
  induction args with
  | nil => exact ⟨[], rfl, [], .noArgs, .nil⟩
  | cons a args ih =>
      obtain ⟨as, has, rest, hrest, hspells⟩ := ih (fun u hu => hprintable u (List.mem_cons_of_mem _ hu))
        fun t ht => htypes t (List.mem_cons_of_mem _ ht)
      cases a with
      | unit u =>
          obtain ⟨v, hv, ts, hts, hunit⟩ := UnitScheme.writtenAs hunits (hprintable u List.mem_cons_self)
          refine ⟨.unit v :: as, by simp [beqArgs, hv, has], _, hts.unitArg hrest, ?_⟩
          have hall := ((hunit.append ((hspells.symbol ')' rfl).symbol '\x7d' rfl)
            (Token.boundary_of_ofChar? rfl)).symbol '\x7b' rfl).symbol '(' rfl
          simpa [textArgs] using hall
      | type t =>
          obtain ⟨s, hs, ts, hts, htype⟩ := htypes t List.mem_cons_self
          have hs : beq s t = true := hs
          refine ⟨.type s :: as, by simp [beqArgs, hs, has], _, hts.typeArg hrest, ?_⟩
          have hall := (htype.append (hspells.symbol ')' rfl) (Token.boundary_of_ofChar? rfl)).symbol '(' rfl
          simpa [textArgs] using hall

theorem params_writtenAs {params : List Scheme} (hne : params ≠ [])
    (htypes : ∀ t ∈ params, ∃ s, s == t ∧ (Phrase.type s).WrittenAs units (text t).toList) :
    ∃ ss, beqParams ss params = true ∧
      (Phrase.params ss).WrittenAs units (", ".intercalate (textParams params)).toList := by
  induction params with
  | nil => exact absurd rfl hne
  | cons t params ih =>
      obtain ⟨⟨s, hs, ts, hts, htype⟩, htypes⟩ := List.forall_mem_cons.1 htypes
      have hs : beq s t = true := hs
      cases params with
      | nil => exact ⟨[s], by simp [beqParams, hs], ts, hts.lastParam, by simpa [textParams] using htype⟩
      | cons t' params =>
          obtain ⟨ss, hss, us, hus, hparams⟩ := ih (by simp) htypes
          refine ⟨s :: ss, by simp [beqParams, hs, hss], _, hts.moreParams hus, ?_⟩
          have hall := htype.append ((hparams.blank ' ' rfl).symbol ',' rfl)
            (Token.boundary_of_ofChar? rfl)
          simpa [textParams, String.intercalate_cons_cons] using hall

theorem field_writtenAs {f : Field Scheme} (hname : f.name.isValid = true) {s : Scheme}
    (htype : (Phrase.type s).WrittenAs units (text f.type).toList) :
    (Phrase.field ⟨f.name, s, f.required⟩).WrittenAs units
      (f.name ++ (if f.required then "" else "?") ++ ":" ++ text f.type).toList := by
  obtain ⟨ts, hts, htype⟩ := htype
  cases f.required with
  | true =>
      refine ⟨_, .required (Token.asName?_ofWord f.name) hts, ?_⟩
      have hall := (Token.Spells.word hname).append (htype.symbol ':' rfl) (Token.boundary_of_ofChar? rfl)
      simpa using hall
  | false =>
      refine ⟨_, .optional (Token.asName?_ofWord f.name) hts, ?_⟩
      have hall := (Token.Spells.word hname).append ((htype.symbol ':' rfl).symbol '?' rfl)
        (Token.boundary_of_ofChar? rfl)
      simpa using hall

theorem fields_writtenAs {fs : List (Field Scheme)} {complete : Bool} (hne : fs ≠ [] ∨ complete = false)
    (hnames : ∀ f ∈ fs, f.name.isValid = true)
    (htypes : ∀ f ∈ fs, ∃ s, s == f.type ∧ (Phrase.type s).WrittenAs units (text f.type).toList) :
    ∃ gs, beqFields gs fs = true ∧ (Phrase.fields gs complete).WrittenAs units
      (", ".intercalate (textFields fs ++ if complete then [] else ["..."])).toList := by
  induction fs with
  | nil =>
      obtain rfl : complete = false := by simpa using hne
      exact ⟨[], rfl, [.ellipsis], .dots, .ellipsis .nil⟩
  | cons f fs ih =>
      obtain ⟨hname, hnames⟩ := List.forall_mem_cons.1 hnames
      obtain ⟨⟨s, hs, htype⟩, htypes⟩ := List.forall_mem_cons.1 htypes
      have hs : beq s f.type = true := hs
      obtain ⟨ts, hts, hfield⟩ := field_writtenAs hname htype
      by_cases hlast : fs = [] ∧ complete = true
      · obtain ⟨rfl, rfl⟩ := hlast
        exact ⟨[⟨f.name, s, f.required⟩], by simp [beqFields, hs], ts, hts.lastField,
          by simpa [textFields] using hfield⟩
      · have hne : fs ≠ [] ∨ complete = false := by
          cases complete with
          | true => exact .inl fun h => hlast ⟨h, rfl⟩
          | false => exact .inr rfl
        obtain ⟨gs, hgs, us, hus, hrest⟩ := ih hne hnames htypes
        refine ⟨⟨f.name, s, f.required⟩ :: gs, by simp [beqFields, hs, hgs], _, hts.moreFields hus, ?_⟩
        obtain ⟨y, ys, hys⟩ : ∃ y ys, textFields fs ++ (if complete then [] else ["..."]) = y :: ys := by
          cases complete with
          | true =>
              obtain ⟨g, fs, rfl⟩ := List.exists_cons_of_ne_nil (by simpa using hne)
              exact ⟨_, _, rfl⟩
          | false => exact List.exists_cons_of_ne_nil (by simp)
        have hall := hfield.append ((hrest.blank ' ' rfl).symbol ',' rfl)
          (Token.boundary_of_ofChar? rfl)
        rw [textFields, List.cons_append, hys, String.intercalate_cons_cons, ← hys]
        simpa using hall

/-- A primitive type is written as a keyword that stands for it. -/
theorem exists_keyword (p : Primitive) : ∃ k, primitive? k = some p ∧ k.spelling = p.spelling := by
  cases p with
  | boolean => exact ⟨.boolean, rfl, rfl⟩
  | text => exact ⟨.text, rfl, rfl⟩
  | date => exact ⟨.date, rfl, rfl⟩
  | dateYM => exact ⟨.dateYM, rfl, rfl⟩
  | time => exact ⟨.time, rfl, rfl⟩
  | dateTime => exact ⟨.dateTime, rfl, rfl⟩
  | dateTimeZoned => exact ⟨.dateTimeZoned, rfl, rfl⟩

theorem number_writtenAs (hunits : units.Built) {u : UnitScheme} (hu : u.Printable units) :
    ∃ v, v == u ∧ (Phrase.type (.number v)).WrittenAs units (numberText u).toList := by
  unfold numberText
  split
  · rename_i hone
    have hfactors : u.factors = [] := by simpa [Product.isOne] using hone
    refine ⟨.one, Product.beq_iff.2 (by rw [hfactors]; exact .nil), _, .plainNumber, ?_⟩
    exact .word (Name.isValid_spelling .number)
  · obtain ⟨v, hv, ts, hts, hunit⟩ := UnitScheme.writtenAs hunits hu
    refine ⟨v, hv, _, hts.number, ?_⟩
    have hword : Token.Spells "Number".toList [.keyword .number] :=
      .word (Name.isValid_spelling .number)
    have hall := hword.append (.enclosed (o := '\x7b') (c := '\x7d') rfl rfl hunit)
      (Token.boundary_of_ofChar? rfl)
    simpa using hall

/-- Fields with the names of an ordered record are ordered. -/
theorem ascending_of_beqFields {fs gs : List (Field Scheme)} (h : beqFields gs fs = true)
    (hfs : Ascending Field.name fs) : Ascending Field.name gs := by
  have hnames := Field.map_name_of_agree (beqFields_iff.1 h)
  have hmap : (fs.map Field.name).Pairwise fun a b => compare a b = .lt := List.pairwise_map.2 hfs
  rw [← hnames] at hmap
  exact List.pairwise_map.1 hmap

theorem record_writtenAs {fs : List (Field Scheme)} {complete : Bool} (hfs : Ascending Field.name fs)
    (hnames : ∀ f ∈ fs, f.name.isValid = true)
    (htypes : ∀ f ∈ fs, ∃ s, s == f.type ∧ (Phrase.type s).WrittenAs units (text f.type).toList) :
    ∃ gs, beqFields gs fs = true ∧
      (Phrase.type (.record gs complete)).WrittenAs units (text (.record fs complete)).toList := by
  by_cases hempty : fs = [] ∧ complete = true
  · obtain ⟨rfl, rfl⟩ := hempty
    exact ⟨[], rfl, _, .emptyRecord, .symbol '(' rfl (.symbol ')' rfl .nil)⟩
  · have hne : fs ≠ [] ∨ complete = false := by
      cases complete with
      | true => exact .inl fun h => hempty ⟨h, rfl⟩
      | false => exact .inr rfl
    obtain ⟨gs, hgs, ts, hts, hfields⟩ := fields_writtenAs hne hnames htypes
    have hordered := ascending_of_beqFields hgs hfs
    have hdistinct : (gs.map Field.name).Nodup := by
      refine List.pairwise_map.2 (hordered.imp fun hlt heq => ?_)
      rw [heq] at hlt
      simp at hlt
    have hrecord := hts.record hdistinct
    rw [recordOf, Field.ofList, Ascending.ofList_eq_self hordered] at hrecord
    refine ⟨gs, hgs, _, hrecord, ?_⟩
    have hall := Token.Spells.enclosed (o := '(') (c := ')') rfl rfl hfields
    simpa [text] using hall

/-- A printable type is derived from its written form, up to descriptions. -/
theorem writtenAs (hunits : units.Built) {t : Scheme} (ht : t.Printable units) (hordered : t.Ordered) :
    ∃ s, s == t ∧ (Phrase.type s).WrittenAs units (text t).toList := by
  induction ht with
  | primitive p =>
      obtain ⟨k, hk, hspelling⟩ := exists_keyword p
      refine ⟨.primitive p, beq_self_eq_true p, [.keyword k], .primitive hk, ?_⟩
      have hword := Token.Spells.word (Name.isValid_spelling k)
      rwa [Token.ofWord_of_ofName? (Keyword.ofName?_eq_some_iff.2 rfl), hspelling] at hword
  | number h =>
      obtain ⟨v, hv, hwritten⟩ := number_writtenAs hunits h
      exact ⟨.number v, hv, hwritten⟩
  | @ident name h =>
      have hword := Token.Spells.word h.1
      rw [Token.ofWord_of_isKeyword_eq_false h.2] at hword
      exact ⟨.ident name, beq_self_eq_true name, _, .tagged .noArgs, hword⟩
  | @apply name args h hargs hprintable _ ih =>
      cases hordered with
      | apply hordered =>
          obtain ⟨as, has, ts, hts, hspells⟩ := args_writtenAs hunits hprintable fun t ht =>
            ih t ht (hordered t ht)
          have hne : as ≠ [] := by
            rintro rfl
            cases args with
            | nil => exact hargs rfl
            | cons a args => cases a <;> cases has
          have htagged := hts.tagged (n := name)
          rw [tagged, if_neg (by simpa using hne)] at htagged
          refine ⟨.apply name as, ?_, _, htagged, ?_⟩
          · show (name == name && beqArgs as args) = true
            rw [beq_self_eq_true, has, Bool.and_self]
          · have hword := Token.Spells.word h.1
            rw [Token.ofWord_of_isKeyword_eq_false h.2] at hword
            simpa [text] using hword.append hspells (boundary_textArgs args)
  | @record fields complete hnames _ ih =>
      cases hordered with
      | record hfields hordered =>
          obtain ⟨gs, hgs, hwritten⟩ := record_writtenAs hfields hnames fun f hf => ih f hf (hordered f hf)
          refine ⟨.record gs complete, ?_, hwritten⟩
          show (beqFields gs fields && complete == complete) = true
          rw [hgs, beq_self_eq_true, Bool.and_self]
  | array _ ih =>
      cases hordered with
      | array hordered =>
          obtain ⟨s, hs, ts, hts, hspells⟩ := ih hordered
          exact ⟨.array s, hs, _, hts.array, by
            simpa [text] using Token.Spells.enclosed (o := '[') (c := ']') rfl rfl hspells⟩
  | @function params result _ _ ihparams ihresult =>
      cases hordered with
      | function hparams hresult =>
          obtain ⟨r, hr, us, hus, hresult⟩ := ihresult hresult
          have hr : beq r result = true := hr
          have htail := ((hresult.append (.symbol ')' rfl .nil) (Token.boundary_of_ofChar? rfl)).blank ' '
            rfl).arrow.blank ' ' rfl
          by_cases hempty : params = []
          · subst hempty
            refine ⟨.function [] r, by simpa [BEq.beq, beq, beqParams] using hr, _, hus.constant, ?_⟩
            have hall := ((htail.symbol ')' rfl).symbol '(' rfl).symbol '(' rfl
            simpa [text, textParams] using hall
          · obtain ⟨ss, hss, ts, hts, hlist⟩ := params_writtenAs hempty fun t ht => ihparams t ht (hparams t ht)
            refine ⟨.function ss r, ?_, _, hts.function hus, ?_⟩
            · show (beqParams ss params && beq r result) = true
              rw [hss, hr, Bool.and_self]
            · have hall := ((hlist.append (htail.symbol ')' rfl) (Token.boundary_of_ofChar? rfl)).symbol '('
                rfl).symbol '(' rfl
              simpa [text] using hall

end Scheme

theorem Phrase.WrittenAs.exists_readAll {units : UnitCatalog} {p : Phrase} {source : String}
    (h : p.WrittenAs units source.toList) :
    ∃ ls, Lexeme.readAll source = .ok ls ∧ Derives units (ls.map Lexeme.token) p := by
  obtain ⟨ts, hts, hspells⟩ := h
  obtain ⟨ls, hls, rfl⟩ := hspells.lexes 0
  exact ⟨ls, hls, hts⟩

theorem Derives.printable_of_readAll {units : UnitCatalog} {p : Phrase} {source : String} {ls : List Lexeme}
    (h : Derives units (ls.map Lexeme.token) p) (hls : Lexeme.readAll source = .ok ls) : p.Printable units := by
  refine h.printable fun t ht => ?_
  obtain ⟨l, hl, rfl⟩ := List.mem_map.1 ht
  exact Lexeme.wellFormed_of_readAll hls hl

/-- The printable types and units are those that are read back from their written forms. -/
theorem parse_text_iff_printable {units : UnitCatalog} (hunits : units.Built) :
    (∀ t : Scheme, t.Ordered → ((∃ s, Scheme.parse units t.text = .ok s ∧ s == t) ↔ t.Printable units)) ∧
      ∀ u : UnitScheme, (∃ v, UnitScheme.parse units u.text = .ok v ∧ v == u) ↔ u.Printable units := by
  refine ⟨fun t hordered => ⟨?_, fun ht => ?_⟩, fun u => ⟨?_, fun hu => ?_⟩⟩
  · rintro ⟨s, hparse, hst⟩
    obtain ⟨ls, hls, hderives⟩ := Scheme.parse_eq_ok_iff.1 hparse
    exact Scheme.Printable.of_beq (hderives.printable_of_readAll hls) hst
  · obtain ⟨s, hst, hwritten⟩ := Scheme.writtenAs hunits ht hordered
    exact ⟨s, Scheme.parse_eq_ok_iff.2 hwritten.exists_readAll, hst⟩
  · rintro ⟨v, hparse, hvu⟩
    obtain ⟨ls, hls, hderives⟩ := UnitScheme.parse_eq_ok_iff.1 hparse
    exact UnitScheme.Printable.of_beq (hderives.printable_of_readAll hls) hvu
  · obtain ⟨v, hvu, hwritten⟩ := UnitScheme.writtenAs hunits hu
    exact ⟨v, UnitScheme.parse_eq_ok_iff.2 hwritten.exists_readAll, hvu⟩

/-- The two extreme powers, a unit and a field that are named like keywords, and a record that is open. -/
theorem parse_text_of_extreme_powers :
    let units : UnitCatalog := ⟨[.named ⟨"m", "metre"⟩, .named ⟨"Date", "day"⟩], default, Suggestion.score⟩
    let unit : UnitScheme := ⟨[(.var "Text", ⟨2147483647, by decide, by decide⟩),
      (.unit ⟨"Date", ""⟩, 1), (.unit ⟨"m", ""⟩, ⟨-2147483648, by decide, by decide⟩)], by decide, by decide⟩
    let t : Scheme := .function [.record [⟨"Number", .apply "Box" [.unit unit, .type (.ident "a")], false⟩] false]
      (.array (.number unit))
    ∃ s, Scheme.parse units t.text = .ok s ∧ s == t := by
  intro units unit t
  have hunits : units.Built := .declare (.declare (.empty default Suggestion.score) "m" "metre") "Date" "day"
  have hunit : unit.Printable units := by
    simp only [unit, UnitScheme.Printable, List.forall_mem_cons]
    exact ⟨rfl, rfl, rfl, by simp⟩
  have hordered : t.Ordered := by
    refine .function ?_ (.array (.number _))
    simp only [List.forall_mem_singleton]
    refine .record (by decide) ?_
    simp only [List.forall_mem_singleton]
    refine .apply fun s hs => ?_
    obtain rfl : s = .ident "a" := by simpa using hs
    exact .ident _
  have hprintable : t.Printable units := by
    refine .function ?_ (.array (.number hunit))
    simp only [List.forall_mem_singleton]
    refine .record ?_ ?_
    · simp only [List.forall_mem_singleton]
      rfl
    simp only [List.forall_mem_singleton]
    refine .apply ⟨rfl, rfl⟩ (by simp) (fun u hu => ?_) (fun s hs => ?_)
    · obtain rfl : u = unit := by simpa using hu
      exact hunit
    · obtain rfl : s = .ident "a" := by simpa using hs
      exact .ident ⟨rfl, rfl⟩
  exact ((parse_text_iff_printable hunits).1 t hordered).2 hprintable

end Tabula
