import WeblateGettext.Text
import WeblateGettext.Linguas.Update
import WeblateGettext.Linguas.Reconcile
import WeblateGettext.Linguas.Rerun
import WeblateGettext.Linguas.Sync
import WeblateGettext.Linguas.Listing
import WeblateGettext.Linguas.Enumeration
import WeblateGettext.Linguas.Daily
import WeblateGettext.Configure
import WeblateGettext.Host
import WeblateGettext.Msgmerge
import WeblateGettext.XGettext.Args
import WeblateGettext.XGettext.PotFiles
import WeblateGettext.XGettext.PostUpdate
import WeblateGettext.Runs
import WeblateGettext.AuthorComments
import WeblateGettext.Trans.Migration0073
