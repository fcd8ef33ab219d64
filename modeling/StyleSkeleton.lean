import StyleSkeleton.Generator.Chain
import StyleSkeleton.Generator.Session
import StyleSkeleton.Settings.Builder
import StyleSkeleton.Proofs.Outline.Reading
import StyleSkeleton.Proofs.Forest.Outlined
import StyleSkeleton.Proofs.Outline.Invariant
import StyleSkeleton.Proofs.Outline.Growing
import StyleSkeleton.Proofs.Outline.Ignoring
import StyleSkeleton.Proofs.Stylesheet.Decoding
import StyleSkeleton.Proofs.Options.Applying
import StyleSkeleton.Proofs.Generator.Sessions
import StyleSkeleton.Proofs.Generator.FrontEnds
import StyleSkeleton.Proofs.Outline.Attributes
import StyleSkeleton.Proofs.Outline.Wrapping
import StyleSkeleton.Proofs.Outline.Summary
import StyleSkeleton.Proofs.Outline.Sources
import StyleSkeleton.Proofs.Markup.NamePositions
import StyleSkeleton.Proofs.Options.Shapes
import StyleSkeleton.Proofs.Generator.Chains
import StyleSkeleton.Proofs.Stylesheet.Indenting
import StyleSkeleton.Proofs.Markup.ValueSplitting
