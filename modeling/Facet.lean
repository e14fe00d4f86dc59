import Facet.About
import Facet.Call
import Facet.Extraction.Coefficients
import Facet.Extractor.Store
import Facet.Files.Archive
import Facet.Files.Document
import Facet.Image.Bytes
import Facet.Picture.File
import Facet.Picture.HeatMap
import Facet.Plane.PointArray
import Facet.Proofs.Acceptance
import Facet.Proofs.Archives
import Facet.Proofs.Blocks
import Facet.Proofs.Cells
import Facet.Proofs.Colours
import Facet.Proofs.Documents
import Facet.Proofs.Journals
import Facet.Proofs.Layout
import Facet.Proofs.Loggers
import Facet.Proofs.Malformed
import Facet.Proofs.Merging
import Facet.Proofs.Photometry
import Facet.Proofs.PointArrays
import Facet.Proofs.Rank
import Facet.Proofs.RankTolerance
import Facet.Proofs.Recency
import Facet.Proofs.Records
import Facet.Proofs.Recovery
import Facet.Proofs.Rectangles
import Facet.Proofs.Refusals
import Facet.Proofs.Sharing
import Facet.Proofs.SingularValues
import Facet.Proofs.Streams
import Facet.Proofs.Strides
import Facet.Proofs.Symmetries
