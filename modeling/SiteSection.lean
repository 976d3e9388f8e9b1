import SiteSection.Site.Sectioning
import SiteSection.Site.Sealing
import SiteSection.Triangulation
import SiteSection.Stored.Site
import SiteSection.Proofs.Site.Refusals
import SiteSection.Proofs.Section.Repeats
import SiteSection.Proofs.Section.Renumbering
import SiteSection.Proofs.Section.Reversal
import SiteSection.Proofs.Section.Kept
import SiteSection.Proofs.Section.Blocks
import SiteSection.Proofs.Terrain.Transect
import SiteSection.Proofs.Terrain.Thinning
import SiteSection.Proofs.Plan.Parity
import SiteSection.Proofs.Section.Pairs
import SiteSection.Proofs.Site.Search
import SiteSection.Proofs.Site.Ownership
import SiteSection.Proofs.Site.HitOrder
import SiteSection.Proofs.Site.Visits
import SiteSection.Proofs.Section.Policies
import SiteSection.Proofs.Site.Sealings
import SiteSection.Proofs.Stored.RoundTrip
import SiteSection.Proofs.Terrain.Matching
import SiteSection.Proofs.Plan.Closest
import SiteSection.Proofs.Plan.Bearing
import SiteSection.Proofs.Plan.Convex
import SiteSection.Proofs.Plan.Redrawing
import SiteSection.Proofs.Terrain.Entry
import SiteSection.Proofs.Terrain.Surface
import SiteSection.Proofs.Plan.Splitting
import SiteSection.Proofs.Plan.Outlines
import SiteSection.Proofs.Terrain.Edges
import SiteSection.Proofs.Section.Turns
import SiteSection.Proofs.Plan.Corners
import SiteSection.Proofs.Site.Elevations
import SiteSection.Proofs.Terrain.Rounds
import SiteSection.Proofs.Plan.Slopes
import SiteSection.Proofs.Plan.Outward
import SiteSection.Proofs.Plan.SameCorners
import SiteSection.Proofs.Section.Runs
