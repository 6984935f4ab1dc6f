import Mathlib
import Toal.Proofs.Skeleton
import Toal.Proofs.TypedForms

/-!
# Typing only decides what names refer to

A typed program is the program as written with entities for names, and typing
neither loses, nor repeats, nor moves anything (`map_name_skeletons`). Which entity
a name is replaced by is a matter of lexical scoping (`Skeleton.resolve`): it is
the one that the declaration in scope introduces, or the one of that name that
comes with the language (`map_some_skeletons`). The serial numbers of the entities
that a program declares follow one another in the order of the text
(`map_serial_declaredAll`), so no two declarations introduce the same entity.

Where a program is typed by evaluation, that takes the equations of the state monad, which
are not to be had from single files of Mathlib.
-/

namespace Toal

namespace Typing

open Rules (OutputType)
open Skeleton (Referent Place)
open Skeleton.Expr (mapAll)
open Skeleton.Stmt (declaredAll resolveAll)

variable {p q : Spot}

/-! ## Nothing is lost, repeated or moved -/

mutual

/-- With names for entities, a typed expression is the expression as written. -/
theorem map_name_skeleton {cx : Context} :
    ∀ {e : Surface.Expr} {t : Program.Expr}, ExprForm cx e t →
      t.skeleton.map Entity.name = e.skeleton
  | _, _, .number => rfl
  | _, _, .word => rfl
  | _, _, .list hs => congrArg Skeleton.Expr.list (map_name_exprSkeletons hs)
  | _, _, .var hx => congrArg Skeleton.Expr.name (Context.name_of_find? hx)
  | _, _, .auto hx => congrArg Skeleton.Expr.name (Context.name_of_find? hx)
  | _, _, .group h => congrArg Skeleton.Expr.group (map_name_skeleton h)
  | _, _, .arith hl hr _ _ =>
    congrArg₂ (Skeleton.Expr.binary _) (map_name_skeleton hl) (map_name_skeleton hr)
  | _, _, .compare hl hr _ _ =>
    congrArg₂ (Skeleton.Expr.binary _) (map_name_skeleton hl) (map_name_skeleton hr)
  | _, _, .call hf hs _ =>
    congrArg₂ Skeleton.Expr.call (Context.name_of_find? hf) (map_name_exprSkeletons hs)

theorem map_name_exprSkeletons {cx : Context} :
    ∀ {es : List Surface.Expr} {ts : List Program.Expr}, ExprForms cx es ts →
      mapAll Entity.name (Program.exprSkeletons ts) = Surface.exprSkeletons es
  | _, _, .nil => rfl
  | _, _, .cons h hs =>
    congrArg₂ List.cons (map_name_skeleton h) (map_name_exprSkeletons hs)

end

/-- The output type is the one that is written. -/
theorem outputTy?_of_outputType {output : Option Surface.Ident} {ty : Ty}
    (h : OutputType output ty) : Surface.outputTy? output = some ty := by
  cases h with
  | none => rfl
  | some hname _ => exact ofName?_eq_some_iff.2 hname

/-- A parameter is described by its name and the type that is written. -/
theorem signature_of_describes {x : Surface.Param} {d : Param} (h : Describes x d) :
    (d.name, some d.ty) = x.signature := by
  obtain ⟨name, ty⟩ := d
  obtain ⟨rfl, hty⟩ := h
  cases hty with
  | none => rfl
  | some htext => exact congrArg (Prod.mk _) (ofName?_eq_some_iff.2 htext).symm

/-- Typed parameters have the names and types that are written. -/
theorem ParamForms.map_signature {ps : List Surface.Param} {ds : List Param} {vs : List Variable}
    (h : ParamForms p ps ds vs q) :
    ds.map (fun d => (d.name, some d.ty)) = ps.map (·.signature) := by
  induction h with
  | nil => rfl
  | cons hdescribes _ _ _ ih =>
    rw [List.map_cons, List.map_cons, signature_of_describes hdescribes, ih]

/-- The variables of parameters have the names of the parameters. -/
theorem ParamForms.map_name {ps : List Surface.Param} {ds : List Param} {vs : List Variable}
    (h : ParamForms p ps ds vs q) :
    (vs.map Entity.var).map Entity.name = ps.map (·.name.text) := by
  induction h with
  | nil => rfl
  | cons _ _ _ _ ih => exact congrArg (List.cons _) ih

mutual

/-- A typed statement is the statement as written with entities for names. -/
theorem map_name_stmtSkeleton :
    ∀ {p q : Spot} {s : Surface.Stmt} {t : Program.Stmt}, StmtForm p s t q →
      t.skeleton.map Entity.name = s.skeleton
  | _, _, _, _, .declare h _ _ =>
    congrArg (Skeleton.Stmt.declare _ _) (map_name_skeleton h)
  | _, _, _, _, .assign hx _ h _ =>
    congrArg₂ Skeleton.Stmt.assign (Context.name_of_find? hx) (map_name_skeleton h)
  | _, _, _, _, .change hx _ _ h _ =>
    congrArg₂ (Skeleton.Stmt.change _) (Context.name_of_find? hx) (map_name_skeleton h)
  | _, _, _, _, .print h _ => congrArg Skeleton.Stmt.print (map_name_skeleton h)
  | _, _, _, _, .automate houtput _ hparams hbody _ => by
    rw [Program.Stmt.skeleton, Surface.Stmt.skeleton, Skeleton.Stmt.map, hparams.map_name,
      Surface.Block.skeletons_eq, ← map_name_skeletons hbody, outputTy?_of_outputType houtput,
      ← hparams.map_signature]
    rfl
  | _, _, _, _, .call hf hs _ =>
    congrArg₂ Skeleton.Stmt.call (Context.name_of_find? hf) (map_name_exprSkeletons hs)
  | _, _, _, _, .outputNone _ _ => rfl
  | _, _, _, _, .output _ _ h _ =>
    congrArg (fun e => Skeleton.Stmt.output (some e)) (map_name_skeleton h)
  | _, _, _, _, .ifThen htest _ hbody => by
    rw [Program.Stmt.skeleton, Surface.Stmt.skeleton, Skeleton.Stmt.map, map_name_skeleton htest,
      map_name_skeletons hbody, Surface.Block.skeletons_eq]
  | _, _, _, _, .ifElse htest _ hbody halternate => by
    rw [Program.Stmt.skeleton, Surface.Stmt.skeleton, Skeleton.Stmt.map, map_name_skeleton htest,
      map_name_skeletons hbody, map_name_skeletons halternate, Surface.Block.skeletons_eq,
      Surface.Block.skeletons_eq]
  | _, _, _, _, .loopWhile htest _ hbody => by
    rw [Program.Stmt.skeleton, Surface.Stmt.skeleton, Skeleton.Stmt.map, map_name_skeleton htest,
      map_name_skeletons hbody, Surface.Block.skeletons_eq]
  | _, _, _, _, .loopOver hlist _ _ hbody => by
    rw [Program.Stmt.skeleton, Surface.Stmt.skeleton, Skeleton.Stmt.map, map_name_skeleton hlist,
      map_name_skeletons hbody, Surface.Block.skeletons_eq]
    rfl
  | _, _, _, _, .breakLoop _ => rfl

/-- Typed statements are the statements as written with entities for names. -/
theorem map_name_skeletons :
    ∀ {p q : Spot} {ss : List Surface.Stmt} {ts : List Program.Stmt}, StmtForms p ss ts q →
      Skeleton.Stmt.mapAll Entity.name (Program.skeletons ts) = Surface.skeletons ss
  | _, _, _, _, .nil => rfl
  | _, _, _, _, .cons h hs =>
    congrArg₂ List.cons (map_name_stmtSkeleton h) (map_name_skeletons hs)

end

/-! ## Serial numbers follow the text -/

/-- The entities have the serial numbers from `m` on, and `n` is the next one. -/
def Numbered (m : Nat) (es : List Entity) (n : Nat) : Prop :=
  es.map Entity.serial = List.range' m es.length ∧ n = m + es.length

namespace Numbered

variable {m n k : Nat} {e : Entity} {es fs : List Entity}

theorem nil : Numbered m [] m := ⟨rfl, rfl⟩

theorem cons (he : e.serial = m) (hes : Numbered (m + 1) es n) : Numbered m (e :: es) n := by
  obtain ⟨hserials, rfl⟩ := hes
  refine ⟨?_, ?_⟩
  · rw [List.map_cons, he, hserials, List.length_cons, List.range'_succ]
  · rw [List.length_cons]
    omega

/-- Entities that are numbered on from others are numbered with them. -/
theorem append (hes : Numbered m es n) (hfs : Numbered n fs k) : Numbered m (es ++ fs) k := by
  obtain ⟨hserials, rfl⟩ := hes
  obtain ⟨hserials', rfl⟩ := hfs
  refine ⟨?_, ?_⟩
  · rw [List.map_append, hserials, hserials', List.length_append, List.range'_append_1]
  · rw [List.length_append, Nat.add_assoc]

/-- The serial number of an entity says where it stands. -/
theorem serial_of_getElem? (hes : Numbered m es n) {i : Nat} (he : es[i]? = some e) :
    e.serial = m + i := by
  have hserial : (es.map Entity.serial)[i]? = some e.serial := by
    rw [List.getElem?_map, he, Option.map_some]
  obtain ⟨hi, -⟩ := List.getElem?_eq_some_iff.1 he
  rw [hes.1, List.getElem?_range' hi, Nat.one_mul, Option.some.injEq] at hserial
  exact hserial.symm

/-- The serial of a numbered entity is its position. -/
theorem getElem?_serial (hes : Numbered m es n) (he : e ∈ es) : es[e.serial - m]? = some e := by
  obtain ⟨i, hi⟩ := List.mem_iff_getElem?.1 he
  rw [hes.serial_of_getElem? hi, Nat.add_sub_cancel_left, hi]

/-- What has been numbered is not numbered again. -/
theorem notMem (hes : Numbered m es n) (hfs : Numbered n fs k) (he : e ∈ es) : e ∉ fs := by
  intro hf
  obtain ⟨i, hi⟩ := List.mem_iff_getElem?.1 he
  obtain ⟨j, hj⟩ := List.mem_iff_getElem?.1 hf
  obtain ⟨hlt, -⟩ := List.getElem?_eq_some_iff.1 hi
  have hserial := (hes.serial_of_getElem? hi).symm.trans (hfs.serial_of_getElem? hj)
  have hn := hes.2
  omega

end Numbered

/-- The variables of parameters are numbered in order. -/
theorem numbered_params {ps : List Surface.Param} {ds : List Param} {vs : List Variable}
    (h : ParamForms p ps ds vs q) : Numbered p.next (vs.map .var) q.next := by
  induction h with
  | nil => exact .nil
  | cons _ _ _ _ ih => exact .cons rfl ih

mutual

/-- The entities that a statement declares are numbered in the order of the text. -/
theorem numbered_declared :
    ∀ {p q : Spot} {s : Surface.Stmt} {t : Program.Stmt}, StmtForm p s t q →
      Numbered p.next t.skeleton.declared q.next
  | _, _, _, _, .declare _ _ _ => .cons rfl .nil
  | _, _, _, _, .assign _ _ _ _ => .nil
  | _, _, _, _, .change _ _ _ _ _ => .nil
  | _, _, _, _, .print _ _ => .nil
  | _, _, _, _, .automate _ _ hparams hbody _ => by
    have hinside := (numbered_params hparams).append (numbered_declaredAll hbody)
    exact .cons rfl hinside
  | _, _, _, _, .call _ _ _ => .nil
  | _, _, _, _, .outputNone _ _ => .nil
  | _, _, _, _, .output _ _ _ _ => .nil
  | _, _, _, _, .ifThen _ _ hbody => numbered_declaredAll hbody
  | _, _, _, _, .ifElse _ _ hbody halternate =>
    (numbered_declaredAll hbody).append (numbered_declaredAll halternate)
  | _, _, _, _, .loopWhile _ _ hbody => by
    have hinside := numbered_declaredAll hbody
    exact hinside
  | _, _, _, _, .loopOver _ _ _ hbody => by
    have hinside := numbered_declaredAll hbody
    exact .cons rfl hinside
  | _, _, _, _, .breakLoop _ => .nil

/-- The entities that statements declare are numbered in the order of the text. -/
theorem numbered_declaredAll :
    ∀ {p q : Spot} {ss : List Surface.Stmt} {ts : List Program.Stmt}, StmtForms p ss ts q →
      Numbered p.next (declaredAll (Program.skeletons ts)) q.next
  | _, _, _, _, .nil => .nil
  | _, _, _, _, .cons h hs => (numbered_declared h).append (numbered_declaredAll hs)

end

/-! ## Names refer to the declaration in scope -/

section Referents

/-- Every one of the entities is what the declaration of its number introduces,
    if the first declaration has the serial number `m`. -/
def Introduces (m : Nat) (entity? : Referent → Option Entity) (es : List Entity) : Prop :=
  ∀ e ∈ es, entity? (.declared (e.serial - m)) = some e

variable {m : Nat} {entity? : Referent → Option Entity} {π : Place}

/-- A place of the walk and a place of the text agree on what names refer to. -/
structure Matches (m : Nat) (entity? : Referent → Option Entity) (p : Spot) (π : Place) :
    Prop where
  find : ∀ x e, p.context.find? x = some e → entity? (π.referent x) = some e
  next : p.next = m + π.count

/-- A name refers to the latest declaration of it. -/
theorem referent_bind (π : Place) (x y : String) :
    (π.bind x).referent y = if x = y then .declared π.count else π.referent y := by
  unfold Place.referent Place.bind
  rw [List.lookup_cons]
  by_cases h : y = x
  · rw [if_pos h.symm, h, beq_self_eq_true]
  · rw [if_neg (Ne.symm h), beq_eq_false_iff_ne.2 h]

namespace Matches

/-- What is declared next is what the declaration of the next number introduces. -/
theorem entity?_count (h : Matches m entity? p π) {e : Entity} (hserial : e.serial = p.next)
    (he : entity? (.declared (e.serial - m)) = some e) :
    entity? (.declared π.count) = some e := by
  have hcount : e.serial - m = π.count := by
    rw [hserial, h.next, Nat.add_sub_cancel_left]
  rwa [hcount] at he

/-- A declaration on both sides keeps the entities matched with their places. -/
theorem declare (h : Matches m entity? p π) {e : Entity}
    (he : entity? (.declared π.count) = some e) (hsees : p.context.sees e.name = false) :
    Matches m entity? (p.declare e) (π.bind e.name) where
  find x e' hx := by
    rw [Spot.declare, Context.find?_insert hsees] at hx
    rw [referent_bind]
    by_cases hname : e.name = x
    · rw [if_pos hname, Option.some.injEq] at hx
      rw [if_pos hname, he, hx]
    · rw [if_neg hname] at hx
      rw [if_neg hname]
      exact h.find x e' hx
  next := by
    rw [Spot.declare, Place.bind, h.next, Nat.add_assoc]

theorem enter (h : Matches m entity? p π) (o : Overrides) : Matches m entity? (p.enter o) π :=
  ⟨h.find, h.next⟩

/-- What is declared in a scope does not matter after it. -/
theorem leave {π' : Place} (h : Matches m entity? p π) (h' : Matches m entity? q π') :
    Matches m entity? (p.leave q) (π.leave π') :=
  ⟨h.find, h'.next⟩

/-- Parameters are matched with the places at which they are bound. -/
theorem params (h : Matches m entity? p π) {ps : List Surface.Param} {ds : List Param}
    {vs : List Variable} (hps : ParamForms p ps ds vs q)
    (hvs : Introduces m entity? (vs.map .var)) :
    (vs.map Entity.var).map some = (π.numbers (ps.map (·.name.text))).map entity? ∧
      Matches m entity? q ((ps.map (·.name.text)).foldl Place.bind π) := by
  induction hps generalizing π with
  | nil => exact ⟨rfl, h⟩
  | cons _ _ hsees _ ih =>
    obtain ⟨hfirst, hrest⟩ := List.forall_mem_cons.1 hvs
    have hcount := h.entity?_count rfl hfirst
    obtain ⟨hnumbers, hmatches⟩ := ih (h.declare hcount hsees) hrest
    exact ⟨congrArg₂ List.cons hcount.symm hnumbers, hmatches⟩

end Matches

mutual

/-- In a typed expression every name has become the entity that it refers to. -/
theorem map_some_skeleton {cx : Context}
    (hfind : ∀ x e, cx.find? x = some e → entity? (π.referent x) = some e) :
    ∀ {e : Surface.Expr} {t : Program.Expr}, ExprForm cx e t →
      t.skeleton.map some = (e.skeleton.map π.referent).map entity?
  | _, _, .number => rfl
  | _, _, .word => rfl
  | _, _, .list hs => congrArg Skeleton.Expr.list (map_some_exprSkeletons hfind hs)
  | _, _, .var hx => congrArg Skeleton.Expr.name (hfind _ _ hx).symm
  | _, _, .auto hx => congrArg Skeleton.Expr.name (hfind _ _ hx).symm
  | _, _, .group h => congrArg Skeleton.Expr.group (map_some_skeleton hfind h)
  | _, _, .arith hl hr _ _ =>
    congrArg₂ (Skeleton.Expr.binary _) (map_some_skeleton hfind hl) (map_some_skeleton hfind hr)
  | _, _, .compare hl hr _ _ =>
    congrArg₂ (Skeleton.Expr.binary _) (map_some_skeleton hfind hl) (map_some_skeleton hfind hr)
  | _, _, .call hf hs _ =>
    congrArg₂ Skeleton.Expr.call (hfind _ _ hf).symm (map_some_exprSkeletons hfind hs)

theorem map_some_exprSkeletons {cx : Context}
    (hfind : ∀ x e, cx.find? x = some e → entity? (π.referent x) = some e) :
    ∀ {es : List Surface.Expr} {ts : List Program.Expr}, ExprForms cx es ts →
      mapAll some (Program.exprSkeletons ts) =
        mapAll entity? (mapAll π.referent (Surface.exprSkeletons es))
  | _, _, .nil => rfl
  | _, _, .cons h hs =>
    congrArg₂ List.cons (map_some_skeleton hfind h) (map_some_exprSkeletons hfind hs)

end

variable {es fs : List Entity}

theorem Introduces.append_iff :
    Introduces m entity? (es ++ fs) ↔ Introduces m entity? es ∧ Introduces m entity? fs :=
  List.forall_mem_append

theorem Introduces.cons_iff {e : Entity} :
    Introduces m entity? (e :: es) ↔
      entity? (.declared (e.serial - m)) = some e ∧ Introduces m entity? es :=
  List.forall_mem_cons

mutual

/-- A typed statement is the resolved statement with the entities that the
    referents stand for. -/
theorem map_some_stmtSkeleton :
    ∀ {p q : Spot} {π : Place} {s : Surface.Stmt} {t : Program.Stmt}, StmtForm p s t q →
      Matches m entity? p π → Introduces m entity? t.skeleton.declared →
      t.skeleton.map some = (s.skeleton.resolve π).1.map entity? ∧
        Matches m entity? q (s.skeleton.resolve π).2
  | _, _, π, _, _, .declare h _ hsees, hm, hi => by
    have hcount := hm.entity?_count rfl (Introduces.cons_iff.1 hi).1
    refine ⟨?_, hm.declare hcount hsees⟩
    exact congrArg₂ (Skeleton.Stmt.declare _) hcount.symm (map_some_skeleton hm.find h)
  | _, _, π, _, _, .assign hx _ h _, hm, _ => by
    refine ⟨?_, hm⟩
    exact congrArg₂ Skeleton.Stmt.assign (hm.find _ _ hx).symm (map_some_skeleton hm.find h)
  | _, _, π, _, _, .change hx _ _ h _, hm, _ => by
    refine ⟨?_, hm⟩
    exact congrArg₂ (Skeleton.Stmt.change _) (hm.find _ _ hx).symm (map_some_skeleton hm.find h)
  | _, _, π, _, _, .print h _, hm, _ => by
    refine ⟨?_, hm⟩
    exact congrArg Skeleton.Stmt.print (map_some_skeleton hm.find h)
  | _, _, π, _, _, .automate houtput hsees hparams hbody _, hm, hi => by
    -- The automation is counted before its parameters, and these before what the body declares.
    obtain ⟨hfirst, hinside⟩ := Introduces.cons_iff.1 hi
    obtain ⟨hvs, hstmts⟩ := Introduces.append_iff.1 hinside
    have hcount := hm.entity?_count rfl hfirst
    have houter := hm.declare hcount hsees
    obtain ⟨hnumbers, hinner⟩ := (houter.enter _).params hparams hvs
    obtain ⟨hskeletons, hlast⟩ := map_some_skeletons hbody hinner hstmts
    rw [← Surface.Block.skeletons_eq] at hskeletons hlast
    refine ⟨?_, houter.leave hlast⟩
    rw [Program.Stmt.skeleton, Surface.Stmt.skeleton, Skeleton.Stmt.map, Skeleton.Stmt.resolve,
      Skeleton.Stmt.map, outputTy?_of_outputType houtput, ← hparams.map_signature, hnumbers,
      hskeletons, hcount]
    rfl
  | _, _, π, _, _, .call hf hs _, hm, _ => by
    refine ⟨?_, hm⟩
    exact congrArg₂ Skeleton.Stmt.call (hm.find _ _ hf).symm (map_some_exprSkeletons hm.find hs)
  | _, _, π, _, _, .outputNone _ _, hm, _ => ⟨rfl, hm⟩
  | _, _, π, _, _, .output _ _ h _, hm, _ => by
    refine ⟨?_, hm⟩
    exact congrArg (fun e => Skeleton.Stmt.output (some e)) (map_some_skeleton hm.find h)
  | _, _, π, _, _, .ifThen htest _ hbody, hm, hi => by
    obtain ⟨hskeletons, hlast⟩ := map_some_skeletons hbody hm hi
    rw [← Surface.Block.skeletons_eq] at hskeletons hlast
    refine ⟨?_, hlast⟩
    exact congrArg₂ (Skeleton.Stmt.ifElse · · none) (map_some_skeleton hm.find htest) hskeletons
  | _, _, π, _, _, .ifElse htest _ hbody halternate, hm, hi => by
    obtain ⟨hfirst, hsecond⟩ := Introduces.append_iff.1 hi
    obtain ⟨hskeletons, hmiddle⟩ := map_some_skeletons hbody hm hfirst
    -- The second branch is resolved at the place where the first one ends.
    obtain ⟨hskeletons', hlast⟩ := map_some_skeletons halternate hmiddle hsecond
    rw [← Surface.Block.skeletons_eq] at hskeletons hskeletons' hlast
    rw [← Surface.Block.skeletons_eq] at hskeletons' hlast
    refine ⟨?_, hlast⟩
    rw [Program.Stmt.skeleton, Surface.Stmt.skeleton, Skeleton.Stmt.map, Skeleton.Stmt.resolve,
      Skeleton.Stmt.map, map_some_skeleton hm.find htest, hskeletons, hskeletons']
  | _, _, π, _, _, .loopWhile htest _ hbody, hm, hi => by
    obtain ⟨hskeletons, hlast⟩ := map_some_skeletons hbody (hm.enter .loop) hi
    rw [← Surface.Block.skeletons_eq] at hskeletons hlast
    refine ⟨?_, hm.leave hlast⟩
    exact congrArg₂ Skeleton.Stmt.loopWhile (map_some_skeleton hm.find htest) hskeletons
  | _, _, π, _, _, .loopOver hlist _ hsees hbody, hm, hi => by
    obtain ⟨hfirst, hinside⟩ := Introduces.cons_iff.1 hi
    have hcount := hm.entity?_count rfl hfirst
    obtain ⟨hskeletons, hlast⟩ :=
      map_some_skeletons hbody ((hm.enter .loop).declare hcount hsees) hinside
    rw [← Surface.Block.skeletons_eq] at hskeletons hlast
    refine ⟨?_, hm.leave hlast⟩
    rw [Program.Stmt.skeleton, Surface.Stmt.skeleton, Skeleton.Stmt.map, Skeleton.Stmt.resolve,
      Skeleton.Stmt.map, map_some_skeleton hm.find hlist, hcount]
    exact congrArg _ hskeletons
  | _, _, π, _, _, .breakLoop _, hm, _ => ⟨rfl, hm⟩

/-- Typed statements are the resolved statements with the entities that the
    referents stand for. -/
theorem map_some_skeletons :
    ∀ {p q : Spot} {π : Place} {ss : List Surface.Stmt} {ts : List Program.Stmt},
      StmtForms p ss ts q → Matches m entity? p π →
      Introduces m entity? (declaredAll (Program.skeletons ts)) →
      Skeleton.Stmt.mapAll some (Program.skeletons ts) =
          Skeleton.Stmt.mapAll entity? (resolveAll π (Surface.skeletons ss)).1 ∧
        Matches m entity? q (resolveAll π (Surface.skeletons ss)).2
  | _, _, _, _, _, .nil, hm, _ => ⟨rfl, hm⟩
  | _, _, _, _, _, .cons h hs, hm, hi => by
    obtain ⟨hfirst, hrest⟩ := Introduces.append_iff.1 hi
    obtain ⟨hskeleton, hmiddle⟩ := map_some_stmtSkeleton h hm hfirst
    obtain ⟨hskeletons, hlast⟩ := map_some_skeletons hs hmiddle hrest
    exact ⟨congrArg₂ List.cons hskeleton hskeletons, hlast⟩

end

end Referents

/-! ## Programs -/

variable {entities : List Entity}

/-- Entities of different names that are declared one after the other are found by
    their names. -/
theorem find?_foldl_insert {cx : Context} {es : List Entity} (hes : (es.map Entity.name).Nodup)
    (hcx : ∀ e ∈ es, cx.sees e.name = false) (x : String) :
    (es.foldl Context.insert cx).find? x = (es.find? (·.name == x)).or (cx.find? x) := by
  induction es generalizing cx with
  | nil => rfl
  | cons e es ih =>
    rw [List.map_cons, List.nodup_cons] at hes
    obtain ⟨hsees, hrest⟩ := List.forall_mem_cons.1 hcx
    have hnext : ∀ e' ∈ es, (cx.insert e).sees e'.name = false := by
      intro e' he'
      have hne : e.name ≠ e'.name := fun h => hes.1 (h ▸ List.mem_map_of_mem he')
      rw [Context.sees_eq_false_iff, Context.find?_insert hsees, if_neg hne]
      exact Context.sees_eq_false_iff.1 (hrest e' he')
    rw [List.foldl_cons, ih hes.2 hnext, Context.find?_insert hsees, List.find?_cons]
    by_cases hx : e.name = x
    · have hnone : es.find? (·.name == x) = none := by
        rw [List.find?_eq_none]
        intro e' he' hname
        exact hes.1 (hx ▸ beq_iff_eq.1 hname ▸ List.mem_map_of_mem he')
      rw [if_pos hx, hnone, hx, beq_self_eq_true]
      rfl
    · rw [if_neg hx, beq_eq_false_iff_ne.2 hx]

/-- At the start a name stands for the entity of the language with that name. -/
theorem find?_start (hnames : (entities.map Entity.name).Nodup) (x : String) :
    (Spot.start entities).context.find? x = entities.find? (·.name == x) := by
  refine (find?_foldl_insert hnames (fun _ _ => rfl) x).trans ?_
  exact Option.or_none

/-- The serial numbers of declarations lie above those of the entities that come
    with the language. -/
theorem serial_lt_start {e : Entity} (he : e ∈ entities) :
    e.serial < (Spot.start entities).next := by
  have hbound : ∀ (es : List Entity) (n : Nat),
      n ≤ es.foldl (fun n e => max n (e.serial + 1)) n ∧
        ∀ e ∈ es, e.serial < es.foldl (fun n e => max n (e.serial + 1)) n := by
    intro es
    induction es with
    | nil => exact fun n => ⟨Nat.le_refl n, by simp⟩
    | cons e es ih =>
      intro n
      obtain ⟨hle, hlt⟩ := ih (max n (e.serial + 1))
      refine ⟨Nat.le_trans (Nat.le_max_left _ _) hle, List.forall_mem_cons.2 ⟨?_, hlt⟩⟩
      exact Nat.le_trans (Nat.le_max_right _ _) hle
  exact (hbound entities 0).2 e he

/-- Different referents stand for different entities. -/
theorem referent_unique {program : Program} {last : Nat}
    (hnumbered : Numbered (Spot.start entities).next
      (declaredAll (Program.skeletons program.stmts)) last)
    {r r' : Referent} {e : Entity} (hr : program.entity? entities r = some e)
    (hr' : program.entity? entities r' = some e) : r = r' := by
  have hdeclared {n : Nat} (hn : program.entity? entities (.declared n) = some e) :
      e.serial = (Spot.start entities).next + n :=
    hnumbered.serial_of_getElem? hn
  have hfree {x : String} (hx : program.entity? entities (.free x) = some e) :
      e.name = x ∧ e.serial < (Spot.start entities).next := by
    have hname := List.find?_some hx
    exact ⟨beq_iff_eq.1 hname, serial_lt_start (List.mem_of_find?_eq_some hx)⟩
  rcases r with n | x <;> rcases r' with n' | x'
  · have hsum := (hdeclared hr).symm.trans (hdeclared hr')
    rw [Nat.add_left_cancel hsum]
  · have hlt := (hfree hr').2
    have heq := hdeclared hr
    omega
  · have hlt := (hfree hr).2
    have heq := hdeclared hr'
    omega
  · rw [← (hfree hr).1, ← (hfree hr').1]

/-- A typed program is the program as written, with nothing lost, repeated or
    moved. Its names are those that lexical scoping finds: every name is replaced
    by the entity that the declaration it refers to introduces, or by the one of
    that name that comes with the language; and different referents stand for
    different entities. -/
theorem run_elaborates {stmts : List Surface.Stmt} {program : Program}
    (hnames : (entities.map Entity.name).Nodup) (h : (run entities stmts).1 = .ok program) :
    Skeleton.Stmt.mapAll Entity.name (Program.skeletons program.stmts) = Surface.skeletons stmts ∧
      Skeleton.Stmt.mapAll some (Program.skeletons program.stmts) =
        Skeleton.Stmt.mapAll (program.entity? entities)
          (Skeleton.resolve (Surface.skeletons stmts)) ∧
      ∀ r r' e, program.entity? entities r = some e → program.entity? entities r' = some e →
        r = r' := by
  obtain ⟨last, hforms⟩ := stmtForms_of_run h
  have hnumbered := numbered_declaredAll hforms
  have hstart : Matches (Spot.start entities).next (program.entity? entities) (.start entities)
      .start :=
    ⟨fun x e hx => (find?_start hnames x).symm.trans hx, rfl⟩
  have hintroduces : Introduces (Spot.start entities).next (program.entity? entities)
      (declaredAll (Program.skeletons program.stmts)) := fun e he => hnumbered.getElem?_serial he
  refine ⟨map_name_skeletons hforms, (map_some_skeletons hforms hstart hintroduces).1, ?_⟩
  intro r r' e hr hr'
  exact referent_unique hnumbered hr hr'

section Reuse

open Surface in
/-- An automation that calls itself, a loop over a name that its parameter has too,
    and a name that is declared in a branch and used after it. -/
def reuse : List Stmt :=
  let ident (x : String) : Ident := ⟨x, default⟩
  [.automate (ident "f") [⟨ident "x", none⟩] none
      (.mk [.call (ident "f") [.name (ident "x")] default default] default) default,
    .loopOver (ident "x") (.list [] default)
      (.mk [.call (ident "f") [.name (ident "x")] default default] default) default,
    .ifElse (.name (ident "true"))
      (.mk [.declare true (ident "y") (.word "b" default) default] default) none default,
    .print (.name (ident "y")) default]

/-- Its typed form. -/
def reuseTyped : Program :=
  let f : Automation := ⟨9, "f", [⟨"x", .any⟩], .none, false⟩
  let parameter : Variable := ⟨10, "x", false, .any, false⟩
  let item : Variable := ⟨11, "x", false, .any, false⟩
  let y : Variable := ⟨12, "y", true, .word, false⟩
  ⟨[.automate f [parameter] [.call f [.var parameter]],
    .loopOver item (.list []) [.call f [.var item]],
    .ifElse (.var ⟨7, "true", true, .bool, true⟩) [.declare y (.word "b")] none,
    .print (.var y)]⟩

/-- A name that is used again in another scope, and one that a branch declares. -/
theorem run_elaborates_reuse :
    (Prelude.standard.map Entity.name).Nodup ∧
      (run Prelude.standard reuse).1 = .ok reuseTyped ∧
      Skeleton.resolve (Surface.skeletons reuse) =
        [.automate (.declared 0) [.declared 1] [("x", some .any)] (some .none)
            [.call (.declared 0) [.name (.declared 1)]],
          .loopOver (.declared 2) (.list []) [.call (.declared 0) [.name (.declared 2)]],
          .ifElse (.name (.free "true")) [.declare true (.declared 3) (.word "b")] none,
          .print (.name (.declared 3))] ∧
      Skeleton.Stmt.mapAll some (Program.skeletons reuseTyped.stmts) =
        Skeleton.Stmt.mapAll (reuseTyped.entity? Prelude.standard)
          (Skeleton.resolve (Surface.skeletons reuse)) := by
  have hnames : (Prelude.standard.map Entity.name).Nodup := by decide
  have hrun : (run Prelude.standard reuse).1 = .ok reuseTyped := by cbv
  exact ⟨hnames, hrun, rfl, (run_elaborates hnames hrun).2.1⟩

end Reuse

end Typing

end Toal
