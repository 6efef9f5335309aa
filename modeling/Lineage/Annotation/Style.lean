import Lineage.Annotation.Comments
import Lineage.Annotation.Options

namespace Lineage

/-!
# The two styles of annotation

A schema is annotated either in comments or in options; `AnnotationStyle` selects which of the two
is read, and offers the four readings under one name each.
-/

/-- Where annotations are written. -/
inductive AnnotationStyle where
  | comments
  | options
deriving DecidableEq

namespace AnnotationStyle

open Annotation

/-- The delegate that a declaration names, if any; an empty option names none. -/
def delegate? (style : AnnotationStyle) (kind : EntityKind) (carrier : Carrier) :
    Except AnnotationError (Option String) :=
  match style with
  | comments => Comments.delegate? carrier
  | options => (Options.payload kind carrier).map fun p => p.delegate.filter (!·.isEmpty)

/-- Whether a declaration is marked deprecated. -/
def isDeprecated (style : AnnotationStyle) (kind : EntityKind) (carrier : Carrier) :
    Except AnnotationError Bool :=
  match style with
  | comments => .ok (Comments.isDeprecated carrier)
  | options => (Options.payload kind carrier).map (·.deprecated)

/-- The constraints on a declaration. -/
def validate (style : AnnotationStyle) (kind : EntityKind) (carrier : Carrier) :
    Except AnnotationError ValidateDirectives :=
  match style with
  | comments => Comments.validate carrier
  | options => (Options.payload kind carrier).map fun p =>
      (p.validate.map (·.directives)).getD {}

/-- What a declaration demands of what it is received from. -/
def receive (style : AnnotationStyle) (kind : EntityKind) (carrier : Carrier) :
    Except AnnotationError ReceiveDirectives :=
  match style with
  | comments => Comments.receive carrier
  | options => (Options.payload kind carrier).map fun p => p.receive.getD {}

/-- The four readings of a style. -/
def source (style : AnnotationStyle) : AnnotationSource :=
  { delegate? := style.delegate?, isDeprecated := style.isDeprecated
    validate := style.validate, receive := style.receive }

end AnnotationStyle

end Lineage
